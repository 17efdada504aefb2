import Jdbx.Utils.JsonEquality

/-!
# JSON values in memory

A `json_value_t` is a node with its buffers.  `json_clone` takes all of them from the allocator,
which is taken as given: a block is numbered when it is allocated, and a number is given once.
-/

namespace Jdbx

open Library

/-- A `json_value_t` with the numbers of its blocks: the node, the text of a string or a key, and
the buffer of the items or the entries. -/
inductive PlacedValue (δ : Type) where
  | null (node : Nat)
  | boolean (node : Nat) (boolean : Bool)
  | number (node : Nat) (number : δ)
  | integer (node : Nat) (integer : Int64)
  | string (node text : Nat) (string : Bytes)
  | array (node : Nat) (buffer : Option Nat) (capacity : Nat) (items : List (PlacedValue δ))
  | object (node : Nat) (buffer : Option Nat) (capacity : Nat)
      (entries : List ((Nat × Bytes) × PlacedValue δ))

section Reading

variable {δ : Type}

mutual

/-- The value without its places in memory. -/
def PlacedValue.value : PlacedValue δ → JsonValue δ
  | .null _ => .null
  | .boolean _ boolean => .boolean boolean
  | .number _ number => .number number
  | .integer _ integer => .integer integer
  | .string _ _ string => .string string
  | .array _ _ _ items => .array (itemValues items)
  | .object _ _ _ entries => .object (entryValues entries)
termination_by structural value => value

def itemValues : List (PlacedValue δ) → List (JsonValue δ)
  | [] => []
  | item :: items => item.value :: itemValues items
termination_by structural items => items

def entryValues : List ((Nat × Bytes) × PlacedValue δ) → List (Bytes × JsonValue δ)
  | [] => []
  | ((_, key), value) :: entries => (key, value.value) :: entryValues entries
termination_by structural entries => entries

end

mutual

def PlacedValue.parts : PlacedValue δ → List Nat
  | .null node | .boolean node _ | .number node _ | .integer node _ => [node]
  | .string node text _ => [node, text]
  | .array node buffer _ items => node :: (buffer.toList ++ itemParts items)
  | .object node buffer _ entries => node :: (buffer.toList ++ entryParts entries)
termination_by structural value => value

def itemParts : List (PlacedValue δ) → List Nat
  | [] => []
  | item :: items => item.parts ++ itemParts items
termination_by structural items => items

def entryParts : List ((Nat × Bytes) × PlacedValue δ) → List Nat
  | [] => []
  | ((text, _), value) :: entries => text :: (value.parts ++ entryParts entries)
termination_by structural entries => entries

end

end Reading

/-! ## Cloning -/

section Cloning

variable {δ : Type} {value : PlacedValue δ} {parts : List Nat} {low high : Nat}

/-- An array or an object as it grows: the buffer, how many fit in it, those that are in it, and
the number of allocations so far. -/
structure Growing (α : Type) where
  buffer : Option Nat
  capacity : Nat
  items : List α
  allocated : Nat

def Growing.empty {α : Type} (allocated : Nat) : Growing α where
  buffer := none
  capacity := 0
  items := []
  allocated := allocated

def Growing.grown {α : Type} (growing : Growing α) : Growing α :=
  if growing.capacity ≤ growing.items.length then
    { growing with
      buffer := some growing.allocated
      capacity := if growing.capacity = 0 then 8 else growing.capacity * 2
      allocated := growing.allocated + 1 }
  else growing

/-- `json_array_append`. -/
def storedArrayAppend (array : Growing (PlacedValue δ)) (value : PlacedValue δ) :
    Growing (PlacedValue δ) :=
  { array.grown with items := array.items ++ [value] }

def replaceValue (key : Bytes) (value : PlacedValue δ) :
    List ((Nat × Bytes) × PlacedValue δ) → List ((Nat × Bytes) × PlacedValue δ)
  | [] => []
  | (text, old) :: entries =>
      if text.2 = key then (text, value) :: entries
      else (text, old) :: replaceValue key value entries

/-- `json_object_set`. -/
def storedObjectSet (object : Growing ((Nat × Bytes) × PlacedValue δ)) (key : Bytes)
    (value : PlacedValue δ) : Growing ((Nat × Bytes) × PlacedValue δ) :=
  if object.items.any fun entry => entry.1.2 = key then
    { object with items := replaceValue key value object.items }
  else
    { object.grown with
      items := object.items ++ [((object.grown.allocated, key), value)]
      allocated := object.grown.allocated + 1 }

mutual

/-- `json_clone`, with the number of allocations before and after. -/
def storedClone : PlacedValue δ → Nat → PlacedValue δ × Nat
  | .null _, allocated => (.null allocated, allocated + 1)
  | .boolean _ boolean, allocated => (.boolean allocated boolean, allocated + 1)
  | .number _ number, allocated => (.number allocated number, allocated + 1)
  | .integer _ integer, allocated => (.integer allocated integer, allocated + 1)
  | .string _ _ string, allocated => (.string allocated (allocated + 1) string, allocated + 2)
  | .array _ _ _ items, allocated =>
      let array := storedCloneItems items (.empty (allocated + 1))
      (.array allocated array.buffer array.capacity array.items, array.allocated)
  | .object _ _ _ entries, allocated =>
      let object := storedCloneEntries entries (.empty (allocated + 1))
      (.object allocated object.buffer object.capacity object.items, object.allocated)
termination_by structural value => value

/-- The array loop of `json_clone`. -/
def storedCloneItems : List (PlacedValue δ) → Growing (PlacedValue δ) → Growing (PlacedValue δ)
  | [], array => array
  | item :: items, array =>
      let clone := storedClone item array.allocated
      storedCloneItems items (storedArrayAppend { array with allocated := clone.2 } clone.1)
termination_by structural items => items

/-- The object loop of `json_clone`. -/
def storedCloneEntries : List ((Nat × Bytes) × PlacedValue δ) →
    Growing ((Nat × Bytes) × PlacedValue δ) → Growing ((Nat × Bytes) × PlacedValue δ)
  | [], object => object
  | ((_, key), value) :: entries, object =>
      let clone := storedClone value object.allocated
      storedCloneEntries entries (storedObjectSet { object with allocated := clone.2 } key clone.1)
termination_by structural entries => entries

end

@[simp]
theorem itemValues_append (items others : List (PlacedValue δ)) :
    itemValues (items ++ others) = itemValues items ++ itemValues others := by
  induction items with
  | nil => rfl
  | cons item items ih => rw [List.cons_append, itemValues, itemValues, ih, List.cons_append]

@[simp]
theorem entryValues_append (entries others : List ((Nat × Bytes) × PlacedValue δ)) :
    entryValues (entries ++ others) = entryValues entries ++ entryValues others := by
  induction entries with
  | nil => rfl
  | cons entry entries ih => rw [List.cons_append, entryValues, entryValues, ih, List.cons_append]

theorem any_key_iff (key : Bytes) (entries : List ((Nat × Bytes) × PlacedValue δ)) :
    (entries.any fun entry => entry.1.2 = key) = true ↔ key ∈ entryKeys (entryValues entries) := by
  induction entries with
  | nil => simp [entryValues, entryKeys]
  | cons entry entries ih =>
      rw [List.any_cons, Bool.or_eq_true, ih, decide_eq_true_eq]
      simp only [entryValues, entryKeys, List.map_cons, List.mem_cons, eq_comm]

theorem entryValues_replaceValue (key : Bytes) (value : PlacedValue δ)
    (entries : List ((Nat × Bytes) × PlacedValue δ))
    (present : key ∈ entryKeys (entryValues entries)) :
    entryValues (replaceValue key value entries) =
      setEntry key value.value (entryValues entries) := by
  induction entries with
  | nil => cases present
  | cons entry entries ih =>
      by_cases same : entry.1.2 = key
      · simp only [replaceValue, entryValues, setEntry, if_pos same]
      · have behind : key ∈ entryKeys (entryValues entries) :=
          (List.mem_cons.mp present).resolve_left (Ne.symm same)
        simp only [replaceValue, entryValues, setEntry, if_neg same, ih behind]

theorem entryValues_storedObjectSet (object : Growing ((Nat × Bytes) × PlacedValue δ))
    (key : Bytes) (value : PlacedValue δ) :
    entryValues (storedObjectSet object key value).items =
      setEntry key value.value (entryValues object.items) := by
  unfold storedObjectSet
  split
  · rename_i present
    exact entryValues_replaceValue key value object.items
      ((any_key_iff key object.items).mp present)
  · rename_i missing
    rw [setEntry_of_not_mem (fun member => missing ((any_key_iff key object.items).mpr member)),
      entryValues_append]
    rfl

mutual

theorem value_storedClone : ∀ (value : PlacedValue δ) (allocated : Nat),
    (storedClone value allocated).1.value = jsonClone value.value
  | .null _, _ | .boolean _ _, _ | .number _ _, _ | .integer _ _, _ | .string _ _ _, _ => rfl
  | .array _ _ _ items, allocated => by
      rw [storedClone, PlacedValue.value, itemValues_storedCloneItems, PlacedValue.value, jsonClone]
      rfl
  | .object _ _ _ entries, allocated => by
      rw [storedClone, PlacedValue.value, entryValues_storedCloneEntries, PlacedValue.value,
        jsonClone]
      rfl

theorem itemValues_storedCloneItems : ∀ (items : List (PlacedValue δ))
    (array : Growing (PlacedValue δ)), itemValues (storedCloneItems items array).items =
      itemValues array.items ++ jsonCloneItems (itemValues items)
  | [], array => (List.append_nil _).symm
  | item :: items, array => by
      rw [storedCloneItems, itemValues_storedCloneItems items, storedArrayAppend,
        itemValues_append, itemValues, itemValues, itemValues, value_storedClone item,
        jsonCloneItems, List.append_assoc, List.singleton_append]

theorem entryValues_storedCloneEntries : ∀ (entries : List ((Nat × Bytes) × PlacedValue δ))
    (object : Growing ((Nat × Bytes) × PlacedValue δ)),
    entryValues (storedCloneEntries entries object).items =
      jsonCloneEntries (entryValues object.items) (entryValues entries)
  | [], object => rfl
  | ((_, key), value) :: entries, object => by
      rw [storedCloneEntries, entryValues_storedCloneEntries entries, entryValues_storedObjectSet,
        value_storedClone value, entryValues, jsonCloneEntries]

end

/-! ## The clone is made of new blocks -/

/-- All blocks of a list are numbered from `low` to before `high`. -/
def Between (low high : Nat) (parts : List Nat) : Prop :=
  ∀ part ∈ parts, low ≤ part ∧ part < high

theorem Between.mono {low high higher : Nat} (between : Between low high parts)
    (above : high ≤ higher) : Between low higher parts := fun part member =>
  ⟨(between part member).1, Nat.lt_of_lt_of_le (between part member).2 above⟩

theorem Between.raise {low lower high : Nat} (between : Between low high parts)
    (below : lower ≤ low) : Between lower high parts := fun part member =>
  ⟨below.trans (between part member).1, (between part member).2⟩

theorem Between.append {parts others : List Nat} (between : Between low high parts)
    (behind : Between low high others) :
    Between low high (parts ++ others) := by
  intro part member
  rcases List.mem_append.mp member with isPart | isOther
  · exact between part isPart
  · exact behind part isOther

theorem between_cons {low high part : Nat} (above : low ≤ part) (below : part < high)
    (between : Between low high parts) :
    Between low high (part :: parts) := by
  intro other member
  rcases List.mem_cons.mp member with rfl | isRest
  · exact ⟨above, below⟩
  · exact between other isRest

theorem between_nil : Between low high [] := nofun

/-- An array or an object that has grown out of blocks from `low` on. -/
structure Growing.From {α : Type} (low : Nat) (partsOf : List α → List Nat) (growing : Growing α) :
    Prop where
  below : low ≤ growing.allocated
  buffer : Between low growing.allocated growing.buffer.toList
  items : Between low growing.allocated (partsOf growing.items)

theorem Growing.from_empty {α : Type} (partsOf : List α → List Nat) (none : partsOf [] = [])
    (allocated : Nat) : (Growing.empty allocated).From allocated partsOf where
  below := Nat.le_refl allocated
  buffer := between_nil
  items := by
    rw [Growing.empty, none]
    exact between_nil

theorem Growing.From.grown {α : Type} {low : Nat} {partsOf : List α → List Nat}
    {growing : Growing α} (starts : growing.From low partsOf) :
    growing.grown.From low partsOf ∧ growing.allocated ≤ growing.grown.allocated := by
  unfold Growing.grown
  split
  · refine ⟨⟨Nat.le_succ_of_le starts.below, ?_, starts.items.mono (Nat.le_succ _)⟩,
      Nat.le_succ _⟩
    exact between_cons starts.below (Nat.lt_succ_self _) between_nil
  · exact ⟨starts, Nat.le_refl _⟩

@[simp]
theorem itemParts_append (items others : List (PlacedValue δ)) :
    itemParts (items ++ others) = itemParts items ++ itemParts others := by
  induction items with
  | nil => rfl
  | cons item items ih => rw [List.cons_append, itemParts, itemParts, ih, List.append_assoc]

@[simp]
theorem entryParts_append (entries others : List ((Nat × Bytes) × PlacedValue δ)) :
    entryParts (entries ++ others) = entryParts entries ++ entryParts others := by
  induction entries with
  | nil => rfl
  | cons entry entries ih =>
      rw [List.cons_append, entryParts, entryParts, ih, List.cons_append,
        List.append_assoc]

theorem Growing.From.storedArrayAppend {low allocated : Nat} {array : Growing (PlacedValue δ)}
    (starts : array.From low itemParts) (later : array.allocated ≤ allocated)
    (between : Between array.allocated allocated value.parts) :
    (storedArrayAppend { array with allocated := allocated } value).From low itemParts ∧
      allocated ≤
        (Jdbx.storedArrayAppend { array with allocated := allocated } value).allocated := by
  have later' : ({ array with allocated := allocated } : Growing (PlacedValue δ)).From low
      itemParts :=
    ⟨starts.below.trans later, starts.buffer.mono later, starts.items.mono later⟩
  obtain ⟨grown, above⟩ := later'.grown
  refine ⟨⟨grown.below, grown.buffer, ?_⟩, above⟩
  rw [Jdbx.storedArrayAppend, itemParts_append]
  refine ((later'.items.mono above).append ?_)
  rw [itemParts, itemParts, List.append_nil]
  exact (between.raise starts.below).mono above

theorem between_replaceValue (key : Bytes) {entries : List ((Nat × Bytes) × PlacedValue δ)}
    (between : Between low high (entryParts entries)) (new : Between low high value.parts) :
    Between low high (entryParts (replaceValue key value entries)) := by
  induction entries with
  | nil => exact between
  | cons entry entries ih =>
      rw [entryParts] at between
      have text := between entry.1.1 List.mem_cons_self
      have old : Between low high entry.2.parts := fun part member =>
        between part (List.mem_cons_of_mem _ (List.mem_append_left _ member))
      have behind : Between low high (entryParts entries) := fun part member =>
        between part (List.mem_cons_of_mem _ (List.mem_append_right _ member))
      rw [replaceValue]
      split
      · exact between_cons text.1 text.2 (new.append behind)
      · exact between_cons text.1 text.2 (old.append (ih behind))

theorem Growing.From.storedObjectSet {low allocated : Nat} (key : Bytes)
    {object : Growing ((Nat × Bytes) × PlacedValue δ)} (starts : object.From low entryParts)
    (later : object.allocated ≤ allocated)
    (between : Between object.allocated allocated value.parts) :
    (storedObjectSet { object with allocated := allocated } key value).From low entryParts ∧
      allocated ≤
        (Jdbx.storedObjectSet { object with allocated := allocated } key value).allocated := by
  have later' : ({ object with allocated := allocated } :
      Growing ((Nat × Bytes) × PlacedValue δ)).From low entryParts :=
    ⟨starts.below.trans later, starts.buffer.mono later, starts.items.mono later⟩
  have new := between.raise starts.below
  unfold Jdbx.storedObjectSet
  split
  · exact ⟨⟨later'.below, later'.buffer, between_replaceValue key later'.items new⟩, Nat.le_refl _⟩
  · obtain ⟨grown, above⟩ := later'.grown
    have above' := Nat.le_succ_of_le above
    refine ⟨⟨Nat.le_succ_of_le grown.below, grown.buffer.mono (Nat.le_succ _), ?_⟩, above'⟩
    rw [entryParts_append]
    refine (later'.items.mono above').append (between_cons grown.below (Nat.lt_succ_self _) ?_)
    rw [entryParts, List.append_nil]
    exact new.mono above'

mutual

theorem parts_storedClone : ∀ (value : PlacedValue δ) (allocated : Nat),
    allocated < (storedClone value allocated).2 ∧
      Between allocated (storedClone value allocated).2 (storedClone value allocated).1.parts
  | .null _, allocated | .boolean _ _, allocated | .number _ _, allocated
  | .integer _ _, allocated =>
      ⟨Nat.lt_succ_self _, between_cons (Nat.le_refl _) (Nat.lt_succ_self _) between_nil⟩
  | .string _ _ _, allocated =>
      ⟨Nat.lt_add_of_pos_right (by decide), between_cons (Nat.le_refl _)
        (Nat.lt_add_of_pos_right (by decide)) (between_cons (Nat.le_succ _) (Nat.lt_succ_self _)
          between_nil)⟩
  | .array _ _ _ items, allocated => by
      have all := from_storedCloneItems items
        (Growing.from_empty itemParts rfl (allocated + 1))
      have below := Nat.lt_of_succ_le all.below
      exact ⟨below, between_cons (Nat.le_refl _) below
        ((all.buffer.append all.items).raise (Nat.le_succ _))⟩
  | .object _ _ _ entries, allocated => by
      have all := from_storedCloneEntries entries
        (Growing.from_empty entryParts rfl (allocated + 1))
      have below := Nat.lt_of_succ_le all.below
      exact ⟨below, between_cons (Nat.le_refl _) below
        ((all.buffer.append all.items).raise (Nat.le_succ _))⟩

theorem from_storedCloneItems : ∀ (items : List (PlacedValue δ)) {low : Nat}
    {array : Growing (PlacedValue δ)}, array.From low itemParts →
      (storedCloneItems items array).From low itemParts
  | [], _, _, starts => starts
  | item :: items, _, array, starts => by
      have clone := parts_storedClone item array.allocated
      rw [storedCloneItems]
      exact from_storedCloneItems items
        (starts.storedArrayAppend (Nat.le_of_lt clone.1) clone.2).1

theorem from_storedCloneEntries : ∀ (entries : List ((Nat × Bytes) × PlacedValue δ)) {low : Nat}
    {object : Growing ((Nat × Bytes) × PlacedValue δ)}, object.From low entryParts →
      (storedCloneEntries entries object).From low entryParts
  | [], _, _, starts => starts
  | ((_, key), value) :: entries, _, object, starts => by
      have clone := parts_storedClone value object.allocated
      rw [storedCloneEntries]
      exact from_storedCloneEntries entries
        (starts.storedObjectSet key (Nat.le_of_lt clone.1) clone.2).1

end

end Cloning

/-- What `json_equals` and `json_clone` do on values without doubles whose objects have distinct
keys. -/
structure JsonLaws (δ : Type) [CDouble δ] : Prop where
  equivalence : Equivalence fun value other : {value : JsonValue δ // PlainValue value} =>
    jsonEquals value.1 other.1 = true
  structural : ∀ value other : {value : JsonValue δ // PlainValue value},
    jsonEquals value.1 other.1 = true ↔ SameValue value.1 other.1
  cloneEqual : ∀ (stored : PlacedValue δ) (allocated : Nat), PlainValue stored.value →
    jsonEquals (storedClone stored allocated).1.value stored.value = true
  cloneApart : ∀ (stored : PlacedValue δ) (allocated : Nat),
    (∀ part ∈ stored.parts, part < allocated) →
      ∀ part ∈ (storedClone stored allocated).1.parts, part ∉ stored.parts

theorem jsonLaws (δ : Type) [CDouble δ] : JsonLaws δ where
  equivalence := jsonEquals_equivalence
  structural value other := jsonEquals_iff value.2 other.2
  cloneEqual stored allocated plain := by
    rw [value_storedClone, jsonClone_eq_self plain.1]
    exact jsonEquals_self plain.1 plain.2
  cloneApart stored allocated before part isClone isOld := by
    have new := (parts_storedClone stored allocated).2 part isClone
    have old := before part isOld
    omega

end Jdbx
