import Jdbx.Library.BlockWrites
import Jdbx.Utils.JsonEquality

/-!
# The sizes of the blocks that JSON is written into

`escape_string`, `stringify_array` and `stringify_object` go over their value twice: once to
count, once to write.  A string stands for its bytes up to the `NUL`, so that `strlen` is its
length.
-/

namespace Jdbx

open Library Writer

/-- `char` is signed: the bytes from 128 on are below 32 too. -/
def escapedSize (byte : UInt8) : Nat :=
  if byte = 34 ∨ byte = 92 ∨ byte.toInt8 < 32 then 2 else 1

/-- The first loop of `escape_string`. -/
def escapedLen (text : Bytes) : Nat :=
  2 + (text.map escapedSize).sum

def escapeStringAt (text : Bytes) : Writer Bytes := do
  allocate
  put (escapedLen text + 1) ((escapeString text).length + 1)
  pure (escapeString text)

/-- `buffer_pool_strdup`. -/
def strdupAt (text : Bytes) : Writer Bytes := do
  allocate
  put (text.length + 1) (text.length + 1)
  pure text

/-- `sprintf` into `char buffer[64]`, and its copy. -/
def printedAt (text : Bytes) : Writer Bytes := do
  put 64 (text.length + 1)
  strdupAt text

/-- `*p++ = byte`, where the block holds `text` up to `p`. -/
def charAt (block : Nat) (text : Bytes) (byte : UInt8) : Writer Bytes := do
  put block (text.length + 1)
  pure (text ++ [byte])

/-- `strcpy(p, part); p += strlen(part)`. -/
def strcpyAt (block : Nat) (text part : Bytes) : Writer Bytes := do
  put block (text.length + part.length + 1)
  pure (text ++ part)

def commaAt (block : Nat) (text : Bytes) (last : Bool) : Writer Bytes :=
  if last then pure text else charAt block text 44

/-- The closing bracket and the `NUL`. -/
def closeAt (block : Nat) (text : Bytes) (close : UInt8) : Writer Bytes := do
  let text ← charAt block text close
  put block (text.length + 1)
  pure text

section Writing

variable {δ : Type} [CDouble δ]

mutual

def stringifyAt : JsonValue δ → Writer Bytes
  | .null => strdupAt (ascii "null")
  | .boolean boolean => strdupAt (if boolean then ascii "true" else ascii "false")
  | .number number => printedAt (CDouble.formatG number)
  | .integer integer => printedAt (formatInt64 integer)
  | .string string => escapeStringAt string
  | .array items =>
      if items.isEmpty then strdupAt (ascii "[]")
      else do
        let size ← measureItems items 2
        allocate
        let text ← charAt (size + 1) [] 91
        let text ← fillItems items (size + 1) text
        closeAt (size + 1) text 93
  | .object entries =>
      if entries.isEmpty then strdupAt (ascii "\x7b\x7d")
      else do
        let size ← measureEntries entries 2
        allocate
        let text ← charAt (size + 1) [] 123
        let text ← fillEntries entries (size + 1) text
        closeAt (size + 1) text 125
termination_by structural value => value

/-- The first loop of `stringify_array`. -/
def measureItems : List (JsonValue δ) → Nat → Writer Nat
  | [], size => pure size
  | item :: items, size => do
      let value ← stringifyAt item
      measureItems items (size + value.length + if items.isEmpty then 0 else 1)
termination_by structural items => items

/-- The second loop of `stringify_array`. -/
def fillItems : List (JsonValue δ) → Nat → Bytes → Writer Bytes
  | [], _, text => pure text
  | item :: items, block, text => do
      let value ← stringifyAt item
      let text ← strcpyAt block text value
      let text ← commaAt block text items.isEmpty
      fillItems items block text
termination_by structural items => items

/-- The first loop of `stringify_object`. -/
def measureEntries : List (Bytes × JsonValue δ) → Nat → Writer Nat
  | [], size => pure size
  | (key, value) :: entries, size => do
      let key ← escapeStringAt key
      let value ← stringifyAt value
      measureEntries entries
        (size + (key.length + 1) + value.length + if entries.isEmpty then 0 else 1)
termination_by structural entries => entries

/-- The second loop of `stringify_object`. -/
def fillEntries : List (Bytes × JsonValue δ) → Nat → Bytes → Writer Bytes
  | [], _, text => pure text
  | (key, value) :: entries, block, text => do
      let key ← escapeStringAt key
      let text ← strcpyAt block text key
      let text ← charAt block text 58
      let value ← stringifyAt value
      let text ← strcpyAt block text value
      let text ← commaAt block text entries.isEmpty
      fillEntries entries block text
termination_by structural entries => entries

end

end Writing

/-! ## The parts -/

variable {block : Nat} {text part : Bytes} {byte : UInt8}

theorem escapeText_length_le (text : Bytes) :
    (escapeText text).length ≤ (text.map escapedSize).sum := by
  induction text with
  | nil => exact Nat.le_refl 0
  | cons byte text ih =>
      rw [escapeText_cons, List.length_append, List.map_cons, List.sum_cons]
      have first : (escapeByte byte).length ≤ escapedSize byte := by
        rw [escapeByte, escapedSize]
        split_ifs <;> simp_all
      omega

theorem ensures_escapeStringAt (text : Bytes) :
    Ensures (escapeStringAt text) (· = escapeString text) := by
  refine ensures_allocate.bind fun _ _ => (ensures_put ?_).bind fun _ _ => ensures_pure rfl
  have inside := escapeText_length_le text
  rw [escapeString, List.length_cons, List.length_append, List.length_singleton, escapedLen]
  omega

theorem ensures_strdupAt (text : Bytes) : Ensures (strdupAt text) (· = text) :=
  ensures_allocate.bind fun _ _ => (ensures_put le_rfl).bind fun _ _ => ensures_pure rfl

theorem ensures_printedAt (short : text.length < 64) : Ensures (printedAt text) (· = text) :=
  (ensures_put short).bind fun _ _ => ensures_strdupAt text

theorem ensures_charAt (room : text.length + 1 ≤ block) :
    Ensures (charAt block text byte) (· = text ++ [byte]) :=
  (ensures_put room).bind fun _ _ => ensures_pure rfl

theorem ensures_strcpyAt (room : text.length + part.length + 1 ≤ block) :
    Ensures (strcpyAt block text part) (· = text ++ part) :=
  (ensures_put room).bind fun _ _ => ensures_pure rfl

theorem ensures_closeAt (room : text.length + 2 ≤ block) :
    Ensures (closeAt block text byte) (· = text ++ [byte]) := by
  refine (ensures_charAt (by omega)).bind fun closed same => ?_
  subst same
  exact (ensures_put (by rw [List.length_append, List.length_singleton]; omega)).bind
    fun _ _ => ensures_pure rfl

theorem ensures_commaAt {last : Bool} (room : text.length + (if last then 0 else 1) ≤ block) :
    Ensures (commaAt block text last) (· = text ++ if last then [] else [44]) := by
  cases last with
  | true => exact ensures_pure (List.append_nil text).symm
  | false => exact ensures_charAt room

theorem intercalate_cons (part : Bytes) (parts : List Bytes) :
    [44].intercalate (part :: parts) =
      part ++ (if parts.isEmpty then [] else [44]) ++ [44].intercalate parts := by
  cases parts with
  | nil => simp
  | cons next parts => rw [List.intercalate_cons_cons]; rfl

theorem length_comma (last : Bool) :
    (if last then [] else [44] : Bytes).length = if last then 0 else 1 := by
  cases last <;> rfl

section Loops

variable {δ : Type} [CDouble δ] {entries : List (Bytes × JsonValue δ)}

theorem ensures_measureItems {items : List (JsonValue δ)}
    (parts : ∀ item ∈ items, Ensures (stringifyAt item) (· = stringifyValue item)) (size : Nat) :
    Ensures (measureItems items size)
      (· = size + ([44].intercalate (items.map stringifyValue)).length) := by
  induction items generalizing size with
  | nil => exact ensures_pure rfl
  | cons item items ih =>
      rw [measureItems]
      refine (parts item List.mem_cons_self).bind fun value same => ?_
      subst same
      refine (ih (fun other member => parts other (List.mem_cons_of_mem item member)) _).mono ?_
      intro total same
      rw [same, List.map_cons, intercalate_cons, List.length_append, List.length_append,
        length_comma, List.isEmpty_map]
      omega

theorem ensures_fillItems {items : List (JsonValue δ)}
    (parts : ∀ item ∈ items, Ensures (stringifyAt item) (· = stringifyValue item))
    (room : text.length + ([44].intercalate (items.map stringifyValue)).length + 1 ≤ block) :
    Ensures (fillItems items block text)
      (· = text ++ [44].intercalate (items.map stringifyValue)) := by
  induction items generalizing text with
  | nil => exact ensures_pure (List.append_nil text).symm
  | cons item items ih =>
      rw [List.map_cons, intercalate_cons, List.isEmpty_map] at room ⊢
      rw [List.length_append, List.length_append, length_comma] at room
      rw [fillItems]
      refine (parts item List.mem_cons_self).bind fun value same => ?_
      subst same
      refine (ensures_strcpyAt (by omega)).bind fun copied same => ?_
      subst same
      refine (ensures_commaAt (by rw [List.length_append]; omega)).bind fun behind same => ?_
      subst same
      refine (ih (fun other member => parts other (List.mem_cons_of_mem item member)) ?_).mono ?_
      · rw [List.length_append, List.length_append, length_comma]
        omega
      · intro filled same
        rw [same, List.append_assoc, List.append_assoc, List.append_assoc]

theorem length_stringifyEntry (entry : Bytes × JsonValue δ) :
    (stringifyEntry entry).length =
      (escapeString entry.1).length + 1 + (stringifyValue entry.2).length := by
  rw [stringifyEntry, List.length_append, List.length_cons]
  omega

theorem ensures_measureEntries
    (parts : ∀ entry ∈ entries, Ensures (stringifyAt entry.2) (· = stringifyValue entry.2))
    (size : Nat) :
    Ensures (measureEntries entries size)
      (· = size + ([44].intercalate (entries.map stringifyEntry)).length) := by
  induction entries generalizing size with
  | nil => exact ensures_pure rfl
  | cons entry entries ih =>
      rw [measureEntries]
      refine (ensures_escapeStringAt entry.1).bind fun key same => ?_
      subst same
      refine (parts entry List.mem_cons_self).bind fun value same => ?_
      subst same
      refine (ih (fun other member => parts other (List.mem_cons_of_mem entry member)) _).mono ?_
      intro total same
      rw [same, List.map_cons, intercalate_cons, List.length_append, List.length_append,
        length_comma, List.isEmpty_map, length_stringifyEntry]
      omega

theorem ensures_fillEntries
    (parts : ∀ entry ∈ entries, Ensures (stringifyAt entry.2) (· = stringifyValue entry.2))
    (room : text.length + ([44].intercalate (entries.map stringifyEntry)).length + 1 ≤ block) :
    Ensures (fillEntries entries block text)
      (· = text ++ [44].intercalate (entries.map stringifyEntry)) := by
  induction entries generalizing text with
  | nil => exact ensures_pure (List.append_nil text).symm
  | cons entry entries ih =>
      rw [List.map_cons, intercalate_cons, List.isEmpty_map] at room ⊢
      rw [List.length_append, List.length_append, length_comma, length_stringifyEntry] at room
      rw [fillEntries]
      refine (ensures_escapeStringAt entry.1).bind fun key same => ?_
      subst same
      refine (ensures_strcpyAt (by omega)).bind fun keyed same => ?_
      subst same
      refine (ensures_charAt (by rw [List.length_append]; omega)).bind fun colon same => ?_
      subst same
      refine (parts entry List.mem_cons_self).bind fun value same => ?_
      subst same
      refine (ensures_strcpyAt ?_).bind fun copied same => ?_
      · rw [List.length_append, List.length_append, List.length_singleton]
        omega
      subst same
      refine (ensures_commaAt ?_).bind fun behind same => ?_
      · rw [List.length_append, List.length_append, List.length_append, List.length_singleton]
        omega
      subst same
      refine (ih (fun other member => parts other (List.mem_cons_of_mem entry member)) ?_).mono ?_
      · simp only [List.length_append, List.length_singleton, length_comma]
        omega
      · intro filled same
        rw [same, stringifyEntry]
        simp only [List.append_assoc, List.cons_append, List.nil_append]

end Loops

section Values

variable {δ : Type} [CDouble δ]

theorem ensures_bracketed {measure : Nat → Writer Nat} {fill : Nat → Bytes → Writer Bytes}
    {joined : Bytes} {opening closing : UInt8}
    (measured : Ensures (measure 2) (· = 2 + joined.length))
    (filled : ∀ {block text}, text.length + joined.length + 1 ≤ block →
      Ensures (fill block text) (· = text ++ joined)) :
    Ensures
      (do
        let size ← measure 2
        allocate
        let text ← charAt (size + 1) [] opening
        let text ← fill (size + 1) text
        closeAt (size + 1) text closing)
      (· = opening :: (joined ++ [closing])) := by
  refine measured.bind fun size same => ?_
  subst same
  refine ensures_allocate.bind fun _ _ => ?_
  refine (ensures_charAt (by simp)).bind fun opened same => ?_
  subst same
  refine (filled (by simp)).bind fun inner same => ?_
  subst same
  exact ensures_closeAt (by simp; omega)

/-- No write of `json_stringify` leaves its block, whatever allocation fails, and what it returns
is the text of the value. -/
theorem stringify_inside (short : ∀ number : δ, (CDouble.formatG number).length < 64) :
    (∀ value : JsonValue δ, Ensures (stringifyAt value) (· = stringifyValue value)) ∧
      ∀ text, Ensures (escapeStringAt text) (· = escapeString text) := by
  refine ⟨fun value => ?_, ensures_escapeStringAt⟩
  induction value using JsonValue.members_induction with
  | scalar value notArray notObject =>
      cases value with
      | null => exact ensures_strdupAt _
      | boolean => exact ensures_strdupAt _
      | number number => exact ensures_printedAt (short number)
      | integer integer => exact ensures_printedAt (by have := length_formatInt64_le integer; omega)
      | string string => exact ensures_escapeStringAt string
      | array items => exact absurd rfl (notArray items)
      | object entries => exact absurd rfl (notObject entries)
  | array items parts =>
      rw [stringifyAt, stringifyValue, stringifyItems_eq_map]
      cases items with
      | nil => exact ensures_strdupAt _
      | cons item items =>
          exact ensures_bracketed (ensures_measureItems parts 2) (ensures_fillItems parts)
  | object entries parts =>
      rw [stringifyAt, stringifyValue, stringifyEntries_eq_map]
      cases entries with
      | nil => exact ensures_strdupAt _
      | cons entry entries =>
          exact ensures_bracketed (ensures_measureEntries parts 2) (ensures_fillEntries parts)

/-- The numbers of the rational doubles are short. -/
theorem stringify_inside_rat :
    Ensures (stringifyAt (.array [.string [34, 7], .number (1 : Rat)]))
      (· = stringifyValue (.array [.string [34, 7], .number (1 : Rat)])) :=
  (stringify_inside fun number =>
    (length_formatInt64_le _).trans_lt (by decide : 20 < 64)).1 _

end Values

end Jdbx
