import Jdbx.Query.QueryExecution
import Jdbx.Query.OperatorLaws
import Jdbx.Library.BubbleSort
import Mathlib.Algebra.Order.BigOperators.Group.List

/-!
# The order of sorted documents

`query_apply_sort` puts the documents in the lexicographic order of the sort keys and keeps
those in place that it does not tell apart, as long as its comparison is consistent.  A NaN
compares equal to every number, and so need not be.  The bounds of the loops wrap around on an
empty array, where nothing is compared `2 ^ 127` times over.
-/

namespace Jdbx

open Library

section Orders

variable {δ : Type} [CDouble δ]

def sortKeys : JsonValue δ → List (Bytes × Bool)
  | .object entries => entries.map sortField
  | _ => []

def compareKeys (a b : JsonValue δ) : List (Bytes × Bool) → Int
  | [] => 0
  | (field, ascending) :: rest =>
      let cmp := compareDocuments a b field ascending
      if cmp = 0 then compareKeys a b rest else cmp

def sortRounds (length : Nat) : Nat :=
  let size := UInt64.ofNat length
  ((List.range (size - 1).toNat).map fun i => (size - UInt64.ofNat i - 1).toNat).sum

/-- What is asked of a sort: it ends within as many rounds as the array has pairs, and its
result has the documents in order, those that are equal on all keys as they came in. -/
structure SortsDocuments (documents : List (JsonValue δ)) (sort : JsonValue δ) : Prop where
  ends : sortKeys sort ≠ [] →
    sortRounds documents.length ≤ documents.length * documents.length
  arranges : ∃ tagged : List (JsonValue δ × Nat), tagged.Perm documents.zipIdx ∧
    tagged.map Prod.fst = queryApplySort documents sort ∧
    tagged.Pairwise fun first second =>
      compareKeys first.1 second.1 (sortKeys sort) ≤ 0 ∧
        (compareKeys first.1 second.1 (sortKeys sort) = 0 → first.2 < second.2)

/-- The order of doubles: a number that is no NaN is above the lesser of two or below the
greater. -/
class RankedDoubles (δ : Type) [CDouble δ] : Prop where
  asymm : ∀ first second : δ, CDouble.lt first second = true → CDouble.lt second first = false
  between : ∀ first second other : δ, CDouble.lt first second = true → IsOrdered other →
    CDouble.lt first other = true ∨ CDouble.lt other second = true

instance : RankedDoubles Rat where
  asymm first second less := by
    simp only [CDouble.lt, decide_eq_true_eq, decide_eq_false_iff_not] at less ⊢
    exact less.not_gt
  between first second other less _ := by
    simp only [CDouble.lt, decide_eq_true_eq] at less ⊢
    rcases lt_or_ge first other with above | below
    · exact .inl above
    · exact .inr (below.trans_lt less)

/-! ## The comparison -/

theorem swaps_iff (sortFields : List (Bytes × Bool)) (a b : JsonValue δ) :
    swaps sortFields a b = true ↔ 0 < compareKeys a b sortFields := by
  induction sortFields with
  | nil => simp [swaps, compareKeys]
  | cons key rest ih =>
      simp only [swaps, compareKeys]
      by_cases same : compareDocuments a b key.1 key.2 = 0
      · rw [if_pos same, if_neg (by omega), if_neg (by omega)]
        exact ih
      · rw [if_neg same]
        split
        · exact iff_of_false Bool.false_ne_true (by omega)
        · rw [if_pos (by omega)]
          exact iff_of_true rfl (by omega)

theorem swaps_eq_false_iff (sortFields : List (Bytes × Bool)) (a b : JsonValue δ) :
    swaps sortFields a b = false ↔ compareKeys a b sortFields ≤ 0 := by
  rw [← Bool.not_eq_true, swaps_iff, not_lt]

theorem strcmpSign_neg (left right : Bytes) : strcmpSign right left = -strcmpSign left right := by
  unfold strcmpSign
  by_cases less : left < right
  · simp [less, Std.not_gt_of_lt less]
  · by_cases greater : right < left
    · simp [less, greater]
    · simp [less, greater]

variable [RankedDoubles δ] {documents : List (JsonValue δ)} {keys : List (Bytes × Bool)}

theorem compareValues_neg (a b : JsonValue δ) : compareValues b a = -compareValues a b := by
  cases a <;> cases b <;> try rfl
  case boolean.boolean a b => simp only [compareValues]; omega
  case number.number a b =>
    simp only [compareValues]
    by_cases less : CDouble.lt a b = true
    · simp [less, RankedDoubles.asymm a b less]
    · by_cases greater : CDouble.lt b a = true
      · simp [less, greater]
      · simp [less, greater]
  case integer.integer a b =>
    simp only [compareValues]
    by_cases less : a < b
    · simp [less, Std.not_gt_of_lt less]
    · by_cases greater : b < a
      · simp [less, greater]
      · simp [less, greater]
  case string.string a b => exact strcmpSign_neg a b

/-- The comparison in ascending order of two values that may be missing. -/
def compareFields : Option (JsonValue δ) → Option (JsonValue δ) → Int
  | none, none => 0
  | none, some _ => -1
  | some _, none => 1
  | some a, some b =>
      if a.type ≠ b.type then (typeNumber a.type).toNat - (typeNumber b.type).toNat
      else compareValues a b

omit [RankedDoubles δ] in
theorem compareDocuments_eq (a b : JsonValue δ) (field : Bytes) (ascending : Bool) :
    compareDocuments a b field ascending =
      if ascending then compareFields (queryExtractField a field) (queryExtractField b field)
      else -compareFields (queryExtractField a field) (queryExtractField b field) := by
  unfold compareDocuments
  cases queryExtractField a field <;> cases queryExtractField b field <;> cases ascending <;> rfl

theorem compareFields_neg (a b : Option (JsonValue δ)) :
    compareFields b a = -compareFields a b := by
  match a, b with
  | none, none => rfl
  | none, some _ => rfl
  | some _, none => rfl
  | some a, some b =>
      simp only [compareFields]
      by_cases same : a.type = b.type
      · rw [if_neg (not_not.mpr same.symm), if_neg (not_not.mpr same)]
        exact compareValues_neg a b
      · rw [if_pos (Ne.symm same), if_pos same]
        omega

theorem compareDocuments_neg (a b : JsonValue δ) (field : Bytes) (ascending : Bool) :
    compareDocuments b a field ascending = -compareDocuments a b field ascending := by
  rw [compareDocuments_eq, compareDocuments_eq, compareFields_neg]
  cases ascending <;> rfl

theorem compareKeys_neg (a b : JsonValue δ) (keys : List (Bytes × Bool)) :
    compareKeys b a keys = -compareKeys a b keys := by
  induction keys with
  | nil => rfl
  | cons key rest ih =>
      simp only [compareKeys]
      rw [compareDocuments_neg, ih]
      split
      · rename_i isZero
        rw [if_pos (by omega)]
      · rename_i notZero
        rw [if_neg (by omega)]

theorem swaps_asymm (sortFields : List (Bytes × Bool)) (a b : JsonValue δ)
    (isAfter : swaps sortFields a b = true) : swaps sortFields b a = false := by
  rw [swaps_iff] at isAfter
  rw [swaps_eq_false_iff, compareKeys_neg]
  omega

theorem precedes_swaps_iff (sortFields : List (Bytes × Bool)) (first second : JsonValue δ × Nat) :
    Precedes (swaps sortFields) first second ↔
      compareKeys first.1 second.1 sortFields ≤ 0 ∧
        (compareKeys first.1 second.1 sortFields = 0 → first.2 < second.2) := by
  unfold Precedes
  rw [swaps_eq_false_iff, swaps_eq_false_iff, compareKeys_neg first.1 second.1]
  constructor
  · exact fun precedes => ⟨precedes.1, fun isZero => precedes.2 (by omega)⟩
  · exact fun precedes => ⟨precedes.1, fun notAbove => precedes.2 (by omega)⟩

omit [RankedDoubles δ] in
theorem bubbleStep_eq (sortFields : List (Bytes × Bool)) :
    bubbleStep sortFields = swapAt (swaps sortFields : JsonValue δ → JsonValue δ → Bool) := by
  funext documents j
  unfold bubbleStep swapAt
  cases documents[j]? <;> cases documents[j + 1]? <;> rfl

theorem toNat_ofNat_pred {length : Nat} (small : length < 2 ^ 64) (positive : 0 < length) :
    (UInt64.ofNat length - 1).toNat = length - 1 := by
  have pred : UInt64.ofNat length - 1 = UInt64.ofNat (length - 1) := by
    rw [UInt64.ofNat_sub positive]
    rfl
  rw [pred, UInt64.toNat_ofNat_of_lt' (Nat.lt_of_le_of_lt (Nat.sub_le length 1) small)]

theorem toNat_ofNat_rest {length i : Nat} (small : length < 2 ^ 64) (inside : i < length - 1) :
    (UInt64.ofNat length - UInt64.ofNat i - 1).toNat = length - i - 1 := by
  rw [← UInt64.ofNat_sub (by omega), toNat_ofNat_pred (by omega) (by omega)]

omit [RankedDoubles δ] in
theorem foldl_bubbleStep (sortFields : List (Bytes × Bool)) (small : documents.length < 2 ^ 64)
    (nonempty : documents ≠ []) :
    (List.range (UInt64.ofNat documents.length - 1).toNat).foldl
      (fun documents' i =>
        (List.range (UInt64.ofNat documents.length - UInt64.ofNat i - 1).toNat).foldl
          (bubbleStep sortFields) documents') documents =
      bubbleSort (swaps sortFields) documents := by
  have positive := List.length_pos_iff.mpr nonempty
  rw [toNat_ofNat_pred small positive, bubbleStep_eq, bubbleSort]
  refine List.foldl_ext _ _ _ fun current pass member => ?_
  rw [toNat_ofNat_rest small (List.mem_range.mp member)]

omit [RankedDoubles δ] in
theorem queryApplySort_eq (sort : JsonValue δ) (small : documents.length < 2 ^ 64)
    (nonempty : documents ≠ []) (keys : sortKeys sort ≠ []) :
    queryApplySort documents sort = bubbleSort (swaps (sortKeys sort)) documents := by
  match sort with
  | .object (entry :: entries) => exact foldl_bubbleStep _ small nonempty
  | .object [] | .null | .boolean _ | .number _ | .integer _ | .string _ | .array _ =>
      exact absurd rfl keys

omit [RankedDoubles δ] in
theorem queryApplySort_of_noKeys (documents : List (JsonValue δ)) {sort : JsonValue δ}
    (keys : sortKeys sort = []) : queryApplySort documents sort = documents := by
  match sort with
  | .object (_ :: _) => exact absurd keys (by simp [sortKeys])
  | .object [] | .null | .boolean _ | .number _ | .integer _ | .string _ | .array _ => rfl

theorem sortRounds_le {length : Nat} (small : length < 2 ^ 64) (positive : 0 < length) :
    sortRounds length ≤ length * length := by
  have each : ∀ rounds ∈ (List.range (UInt64.ofNat length - 1).toNat).map
      (fun i => (UInt64.ofNat length - UInt64.ofNat i - 1).toNat), rounds ≤ length := by
    intro rounds member
    obtain ⟨i, inside, isRounds⟩ := List.mem_map.mp member
    rw [List.mem_range, toNat_ofNat_pred small positive] at inside
    rw [← isRounds, toNat_ofNat_rest small inside]
    omega
  have total := List.sum_le_card_nsmul _ _ each
  rw [List.length_map, List.length_range, nsmul_eq_mul, Nat.cast_id] at total
  have passes : (UInt64.ofNat length - 1).toNat ≤ length := by
    rw [toNat_ofNat_pred small positive]
    exact Nat.sub_le length 1
  exact total.trans (Nat.mul_le_mul_right length passes)

theorem sortRounds_zero : 0 < sortRounds 0 := by
  have first : (UInt64.ofNat 0 - UInt64.ofNat 0 - 1).toNat ∈
      (List.range (UInt64.ofNat 0 - 1).toNat).map
        (fun i => (UInt64.ofNat 0 - UInt64.ofNat i - 1).toNat) :=
    List.mem_map_of_mem (List.mem_range.mpr (by decide))
  exact Nat.lt_of_lt_of_le (by decide) (List.single_le_sum (fun _ _ => Nat.zero_le _) _ first)

/-- What the sort is asked for holds exactly if it has something to sort, and its comparison is
consistent on that. -/
theorem sortsDocuments_iff {documents : List (JsonValue δ)} (sort : JsonValue δ)
    (small : documents.length < 2 ^ 64) :
    SortsDocuments documents sort ↔
      (sortKeys sort = [] ∨ documents ≠ []) ∧ OrdersTriples (swaps (sortKeys sort)) documents := by
  constructor
  · intro sorts
    obtain ⟨tagged, permuted, isResult, ordered⟩ := sorts.arranges
    refine ⟨?_, StablySorted.consistent (swaps_asymm _) ⟨tagged, permuted, isResult,
      ordered.imp fun precedes => (precedes_swaps_iff _ _ _).mpr precedes⟩⟩
    by_contra neither
    rw [not_or, not_not] at neither
    have ends := sorts.ends neither.1
    rw [neither.2, List.length_nil, Nat.zero_mul] at ends
    exact absurd sortRounds_zero (Nat.not_lt.mpr ends)
  · rintro ⟨some, consistent⟩
    have arranged : StablySorted (swaps (sortKeys sort)) documents
        (queryApplySort documents sort) := by
      by_cases keys : sortKeys sort = []
      · rw [queryApplySort_of_noKeys documents keys, keys]
        exact stablySorted_self (fun _ _ => rfl) documents
      · rw [queryApplySort_eq sort small (some.resolve_left keys) keys]
        exact (bubbleSort_stablySorted_iff (swaps_asymm _)).mpr consistent
    obtain ⟨tagged, permuted, isResult, ordered⟩ := arranged
    refine ⟨fun keys => ?_, tagged, permuted, isResult,
      ordered.imp fun precedes => (precedes_swaps_iff _ _ _).mp precedes⟩
    exact sortRounds_le small (List.length_pos_iff.mpr (some.resolve_left keys))

omit [RankedDoubles δ] in
theorem SortsDocuments.pairwise {sort : JsonValue δ} (sorts : SortsDocuments documents sort) :
    (queryApplySort documents sort).Pairwise fun a b => compareKeys a b (sortKeys sort) ≤ 0 := by
  obtain ⟨tagged, _, isResult, ordered⟩ := sorts.arranges
  rw [← isResult, List.pairwise_map]
  exact ordered.imp And.left

/-! ## Documents without a NaN -/

def OrderedKeys (keys : List (Bytes × Bool)) (document : JsonValue δ) : Prop :=
  ∀ key ∈ keys, ∀ number, queryExtractField document key.1 = some (.number number) →
    IsOrdered number

theorem strcmpSign_between {left right : Bytes} (other : Bytes)
    (above : 0 < strcmpSign left right) :
    0 < strcmpSign left other ∨ 0 < strcmpSign other right := by
  simp only [strcmpSign] at above ⊢
  grind

theorem sign_between {α : Type} {less : α → α → Bool} {first second other : α}
    (asymm : ∀ first second, less first second = true → less second first = false)
    (between : less second first = true → less second other = true ∨ less other first = true)
    (above : 0 < (if less first second then -1 else if less second first then 1 else 0 : Int)) :
    0 < (if less first other then -1 else if less other first then 1 else 0 : Int) ∨
      0 < (if less other second then -1 else if less second other then 1 else 0 : Int) := by
  have isAfter : less second first = true := by
    by_contra notLess
    rw [if_neg notLess] at above
    split at above
    · exact absurd above (by decide)
    · exact absurd above (by decide)
  rcases between isAfter with below | below
  · right
    simp [below, asymm _ _ below]
  · left
    simp [below, asymm _ _ below]

theorem compareValues_between {a b c : JsonValue δ} (sameLeft : a.type = b.type)
    (sameRight : b.type = c.type) (ordered : ∀ number, b = .number number → IsOrdered number)
    (above : 0 < compareValues a c) : 0 < compareValues a b ∨ 0 < compareValues b c := by
  cases a <;> cases b <;> simp only [JsonValue.type, reduceCtorEq] at sameLeft
  all_goals cases c <;> simp only [JsonValue.type, reduceCtorEq] at sameRight
  all_goals simp only [compareValues] at above ⊢
  case boolean.boolean.boolean a b c => cases a <;> cases b <;> cases c <;> simp_all
  case number.number.number a b c =>
    exact sign_between RankedDoubles.asymm
      (fun less => RankedDoubles.between c a b less (ordered b rfl)) above
  case integer.integer.integer a b c => grind
  case string.string.string a b c => exact strcmpSign_between b above
  all_goals exact absurd above (by decide)

theorem typeNumber_injective {first second : JsonType}
    (same : (typeNumber first).toNat = (typeNumber second).toNat) : first = second := by
  cases first <;> cases second <;> first | rfl | exact absurd same (by decide)

theorem compareFields_between {a b c : Option (JsonValue δ)}
    (ordered : ∀ number, b = some (.number number) → IsOrdered number)
    (above : 0 < compareFields a c) : 0 < compareFields a b ∨ 0 < compareFields b c := by
  match a, b, c with
  | none, _, none => exact absurd above (Int.lt_irrefl 0)
  | none, _, some _ => exact absurd above (show ¬(0 : Int) < -1 by decide)
  | some _, none, _ => exact .inl Int.one_pos
  | some _, some _, none => exact .inr Int.one_pos
  | some a, some b, some c =>
      simp only [compareFields] at above ⊢
      by_cases sameLeft : a.type = b.type
      · by_cases sameRight : b.type = c.type
        · rw [if_neg (not_not.mpr (sameLeft.trans sameRight))] at above
          rw [if_neg (not_not.mpr sameLeft), if_neg (not_not.mpr sameRight)]
          exact compareValues_between sameLeft sameRight
            (fun number isNumber => ordered number (congrArg some isNumber)) above
        · right
          rw [sameLeft] at above
          rwa [if_pos sameRight] at above ⊢
      · by_cases sameRight : b.type = c.type
        · left
          rw [← sameRight] at above
          rwa [if_pos sameLeft] at above ⊢
        · rw [if_pos sameLeft, if_pos sameRight]
          have different : (typeNumber a.type).toNat ≠ (typeNumber b.type).toNat :=
            fun same => sameLeft (typeNumber_injective same)
          split at above
          · omega
          · rename_i same
            rw [not_not.mp same] at different ⊢
            omega

theorem compareDocuments_between {a c : JsonValue δ} (b : JsonValue δ) {key : Bytes × Bool}
    (member : key ∈ keys) (ordered : OrderedKeys keys b)
    (above : 0 < compareDocuments a c key.1 key.2) :
    0 < compareDocuments a b key.1 key.2 ∨ 0 < compareDocuments b c key.1 key.2 := by
  rw [compareDocuments_eq] at above
  rw [compareDocuments_eq, compareDocuments_eq]
  cases direction : key.2 with
  | true =>
      simp only [direction, if_true] at above ⊢
      exact compareFields_between (ordered key member) above
  | false =>
      simp only [direction, Bool.false_eq_true, if_false, ← compareFields_neg] at above ⊢
      exact (compareFields_between (ordered key member) above).symm

theorem compareKeys_between {a b c : JsonValue δ} (aOrdered : OrderedKeys keys a)
    (bOrdered : OrderedKeys keys b) (cOrdered : OrderedKeys keys c)
    (above : 0 < compareKeys a c keys) : 0 < compareKeys a b keys ∨ 0 < compareKeys b c keys := by
  induction keys with
  | nil => exact absurd above (by simp [compareKeys])
  | cons key rest ih =>
      have outer := compareDocuments_between (a := a) (c := c) b List.mem_cons_self bOrdered
      have left := compareDocuments_between (a := b) (c := a) c List.mem_cons_self cOrdered
      have right := compareDocuments_between (a := c) (c := b) a List.mem_cons_self aOrdered
      rw [compareDocuments_neg a b, compareDocuments_neg a c] at left
      rw [compareDocuments_neg b c, compareDocuments_neg a c] at right
      have behind := ih
        (fun other member => aOrdered other (List.mem_cons_of_mem _ member))
        (fun other member => bOrdered other (List.mem_cons_of_mem _ member))
        (fun other member => cOrdered other (List.mem_cons_of_mem _ member))
      simp only [compareKeys] at above ⊢
      split at above
      · split
        · split
          · exact behind above
          · omega
        · split
          · omega
          · omega
      · split
        · split
          · omega
          · omega
        · split
          · omega
          · omega

theorem ordersTriples_of_ordered (ordered : ∀ document ∈ documents, OrderedKeys keys document) :
    OrdersTriples (swaps keys) documents := by
  refine List.triplewise_iff_getElem.mpr fun i j k less lessStill inside => ?_
  have first := ordered _ (List.getElem_mem (by omega : i < documents.length))
  have second := ordered _ (List.getElem_mem (by omega : j < documents.length))
  have third := ordered _ (List.getElem_mem inside)
  simp only [swaps_iff]
  refine ⟨fun firstAfter secondAfter => ?_, compareKeys_between first second third⟩
  rcases compareKeys_between first third second firstAfter with outer | below
  · exact outer
  · rw [compareKeys_neg] at below
    omega

end Orders

/-- Rationals with a NaN. -/
instance : CDouble (Option Rat) where
  ofInt64 i := some i.toInt
  toInt64 number := number.elim 0 CDouble.toInt64
  toInt32 number := number.elim 0 CDouble.toInt32
  tenth := some (1 / 10)
  add := Option.map₂ (· + ·)
  mul := Option.map₂ (· * ·)
  div := Option.map₂ (· / ·)
  neg := Option.map fun number => -number
  eq number other := number.isSome && decide (number = other)
  lt number other := (Option.map₂ CDouble.lt number other).getD false
  formatG number := number.elim (ascii "nan") CDouble.formatG

/-- A document with a number under `"a"`. -/
def numbered {δ : Type} (number : δ) : JsonValue δ := .object [(ascii "a", .number number)]

/-- The sort definition of `"a"` in ascending order. -/
def byNumber {δ : Type} : JsonValue δ := .object [(ascii "a", .integer 1)]

theorem sortsDocuments_numbered :
    SortsDocuments [numbered (2 : Rat), .object [], numbered 1] byNumber :=
  (sortsDocuments_iff byNumber (by decide)).mpr
    ⟨.inr (List.cons_ne_nil _ _),
      ordersTriples_of_ordered fun _ _ _ _ _ _ => decide_eq_true rfl⟩

/-- The loops run on over an empty array, and a NaN keeps the numbers around it apart. -/
theorem not_sortsDocuments_empty_nan :
    ¬ SortsDocuments ([] : List (JsonValue Rat)) byNumber ∧
      ¬ SortsDocuments [numbered (some 2 : Option Rat), numbered none, numbered (some 1)]
        byNumber := by
  constructor
  · intro sorts
    have ends := sorts.ends (List.cons_ne_nil _ _)
    exact absurd sortRounds_zero (Nat.not_lt.mpr ends)
  · intro sorts
    exact absurd sorts.pairwise (by decide +kernel)

end Jdbx
