import Jdbx.Library.Memory

/-!
# Sanitizing strings

`sanitize_string` writes entities for the characters that HTML gives a meaning.  Each case has
its own test of the room that is left in the output.  The input and the output are blocks of
their own, so that no sum of an index and the length of an entity wraps.
-/

namespace Jdbx

open Library

/-- `isprint` of the C locale. -/
def isprint (byte : UInt8) : Bool :=
  32 ≤ byte && byte ≤ 126

/-- The memory, and `out_index`. -/
structure SanitizeState where
  memory : Memory
  outIndex : Nat

def SanitizeState.emit (output : Nat) (state : SanitizeState) (text : Bytes) : SanitizeState :=
  { memory := writeBytes state.memory (output + state.outIndex) text
    outIndex := state.outIndex + text.length }

/-- A case of the switch that leaves the loop without `room` characters and a `NUL`. -/
def SanitizeState.emitWithin (output outputSize room : Nat) (state : SanitizeState)
    (text : Bytes) : Option SanitizeState :=
  if state.outIndex + room ≥ outputSize - 1 then none else some (state.emit output text)

/-- The switch of `sanitize_string`.  There is no next state at `goto end_sanitize`. -/
def sanitizeChar (output outputSize : Nat) (c : UInt8) (state : SanitizeState) :
    Option SanitizeState :=
  if c = 60 then state.emitWithin output outputSize 4 (ascii "&lt;")
  else if c = 62 then state.emitWithin output outputSize 4 (ascii "&gt;")
  else if c = 38 then state.emitWithin output outputSize 5 (ascii "&amp;")
  else if c = 34 then state.emitWithin output outputSize 6 (ascii "&quot;")
  else if c = 39 then state.emitWithin output outputSize 6 (ascii "&apos;")
  else if isprint c && c ≠ 92 && c ≠ 47 then some (state.emit output [c])
  else if c = 92 || c = 47 then state.emitWithin output outputSize 1 [92, c]
  else some state

/-- The loop of `sanitize_string`. -/
def sanitizeLoop (output outputSize : Nat) : Bytes → SanitizeState → SanitizeState
  | [], state => state
  | c :: rest, state =>
      if state.outIndex < outputSize - 1 then
        match sanitizeChar output outputSize c state with
        | none => state
        | some next => sanitizeLoop output outputSize rest next
      else state

/-- `sanitize_string`.  A pointer that is `NULL` is `none`, and the input is what stands in front
of its `NUL`. -/
def sanitizeString (memory : Memory) (input : Option Bytes) (output : Option Nat)
    (outputSize : Nat) : Int × Memory :=
  match input, output with
  | some input, some output =>
      if outputSize = 0 then (-1, memory)
      else
        let state := sanitizeLoop output outputSize input { memory := memory, outIndex := 0 }
        (0, writeBytes state.memory (output + state.outIndex) [0])
  | _, _ => (-1, memory)

def entities : List Bytes :=
  [ascii "&lt;", ascii "&gt;", ascii "&amp;", ascii "&quot;", ascii "&apos;"]

def sanitized (c : UInt8) : Bytes :=
  if c = 60 then ascii "&lt;"
  else if c = 62 then ascii "&gt;"
  else if c = 38 then ascii "&amp;"
  else if c = 34 then ascii "&quot;"
  else if c = 39 then ascii "&apos;"
  else if isprint c && c ≠ 92 && c ≠ 47 then [c]
  else if c = 92 || c = 47 then [92, c]
  else []

theorem sanitized_cases (c : UInt8) :
    sanitized c ∈ entities ∨ ∀ byte ∈ sanitized c, byte ∉ ([0, 60, 62, 38, 34, 39] : Bytes) := by
  rw [sanitized]
  split_ifs with less greater ampersand quote apostrophe printed slash
  · exact Or.inl (by decide)
  · exact Or.inl (by decide)
  · exact Or.inl (by decide)
  · exact Or.inl (by decide)
  · exact Or.inl (by decide)
  · refine Or.inr fun byte member => ?_
    have notNul : c ≠ 0 := by
      rintro rfl
      exact absurd printed (by decide)
    rw [List.mem_singleton.mp member]
    simp [less, greater, ampersand, quote, apostrophe, notNul]
  · right
    rcases Bool.or_eq_true_iff.mp slash with back | forward
    · rw [of_decide_eq_true back]
      decide +kernel
    · rw [of_decide_eq_true forward]
      decide +kernel
  · exact Or.inr fun byte member => absurd member List.not_mem_nil

theorem entity_bytes : ∀ entity ∈ entities,
    (∀ offset < entity.length, entity[offset]? = some 38 → offset = 0) ∧
      ∀ byte ∈ entity, byte ∉ ([0, 60, 62, 34, 39] : Bytes) := by
  decide +kernel

theorem SanitizeState.emitWithin_eq {output outputSize room : Nat} {state next : SanitizeState}
    {text : Bytes} (emitted : state.emitWithin output outputSize room text = some next)
    (length : text.length ≤ room + 1) :
    next = state.emit output text ∧ next.outIndex ≤ outputSize - 1 := by
  rw [emitWithin] at emitted
  split_ifs at emitted with full
  cases emitted
  refine ⟨rfl, ?_⟩
  rw [emit]
  change state.outIndex + text.length ≤ outputSize - 1
  omega

theorem sanitizeChar_eq {output outputSize : Nat} {c : UInt8} {state next : SanitizeState}
    (room : state.outIndex < outputSize - 1)
    (stepped : sanitizeChar output outputSize c state = some next) :
    next = state.emit output (sanitized c) ∧ next.outIndex ≤ outputSize - 1 := by
  rw [sanitizeChar] at stepped
  rw [sanitized]
  split_ifs at stepped ⊢
  · exact SanitizeState.emitWithin_eq stepped (by decide)
  · exact SanitizeState.emitWithin_eq stepped (by decide)
  · exact SanitizeState.emitWithin_eq stepped (by decide)
  · exact SanitizeState.emitWithin_eq stepped (by decide)
  · exact SanitizeState.emitWithin_eq stepped (by decide)
  · cases stepped
    exact ⟨rfl, room⟩
  · exact SanitizeState.emitWithin_eq stepped (by simp)
  · cases stepped
    refine ⟨?_, Nat.le_of_lt room⟩
    simp [SanitizeState.emit]

theorem SanitizeState.emit_nil (output : Nat) (state : SanitizeState) :
    state.emit output [] = state := by
  simp [emit]

theorem SanitizeState.emit_append (output : Nat) (state : SanitizeState) (first second : Bytes) :
    (state.emit output first).emit output second = state.emit output (first ++ second) := by
  simp only [emit, List.length_append, ← Nat.add_assoc, writeBytes_append]

theorem sanitizeLoop_eq (output outputSize : Nat) (input : Bytes) (state : SanitizeState)
    (inside : state.outIndex ≤ outputSize - 1) :
    ∃ count ≤ input.length,
      sanitizeLoop output outputSize input state =
          state.emit output ((input.take count).flatMap sanitized) ∧
        (sanitizeLoop output outputSize input state).outIndex ≤ outputSize - 1 := by
  induction input generalizing state with
  | nil => exact ⟨0, Nat.le_refl 0, (state.emit_nil output).symm, inside⟩
  | cons c rest ih =>
      rw [sanitizeLoop]
      split_ifs with room
      · cases stepped : sanitizeChar output outputSize c state with
        | none => exact ⟨0, Nat.zero_le _, (state.emit_nil output).symm, inside⟩
        | some next =>
            obtain ⟨emitted, bound⟩ := sanitizeChar_eq room stepped
            obtain ⟨count, within, looped, last⟩ := ih next bound
            refine ⟨count + 1, Nat.succ_le_succ within, ?_, last⟩
            rw [List.take_succ_cons, List.flatMap_cons, ← SanitizeState.emit_append, ← emitted]
            exact looped
      · exact ⟨0, Nat.zero_le _, (state.emit_nil output).symm, inside⟩

theorem exists_piece {α : Type} (piece : α → Bytes) {items : List α} {place : Nat} {byte : UInt8}
    (found : (items.flatMap piece)[place]? = some byte) :
    ∃ index item offset, items[index]? = some item ∧ (piece item)[offset]? = some byte ∧
      place = ((items.take index).flatMap piece).length + offset := by
  induction items generalizing place with
  | nil => cases found
  | cons head items ih =>
      rw [List.flatMap_cons] at found
      by_cases inHead : place < (piece head).length
      · rw [List.getElem?_append_left inHead] at found
        exact ⟨0, head, place, rfl, found, by simp⟩
      · rw [List.getElem?_append_right (Nat.le_of_not_lt inHead)] at found
        obtain ⟨index, item, offset, stands, held, sum⟩ := ih found
        refine ⟨index + 1, item, offset, stands, held, ?_⟩
        rw [List.take_succ_cons, List.flatMap_cons, List.length_append]
        omega

/-- Every ampersand of the text is the first character of the entity that was written for some
character of the input, and the text holds the whole of what was written. -/
def AmpersandsAreEntities (input text : Bytes) : Prop :=
  ∃ count ≤ input.length, text = (input.take count).flatMap sanitized ∧
    ∀ place, text[place]? = some 38 →
      ∃ index c, (input.take count)[index]? = some c ∧ sanitized c ∈ entities ∧
        place = ((input.take index).flatMap sanitized).length

theorem ampersandsAreEntities {input : Bytes} {count : Nat} (within : count ≤ input.length) :
    AmpersandsAreEntities input ((input.take count).flatMap sanitized) := by
  refine ⟨count, within, rfl, fun place found => ?_⟩
  obtain ⟨index, c, offset, stands, held, sum⟩ := exists_piece sanitized found
  have entity : sanitized c ∈ entities := by
    refine (sanitized_cases c).resolve_right fun plain => ?_
    exact plain 38 (List.mem_of_getElem? held) (by decide)
  have first : offset = 0 :=
    (entity_bytes _ entity).1 offset (List.getElem?_eq_some_iff.mp held).1 held
  refine ⟨index, c, stands, entity, ?_⟩
  have inTake : index < count := by
    have bound := (List.getElem?_eq_some_iff.mp stands).1
    rw [List.length_take] at bound
    omega
  rw [sum, first, Nat.add_zero, List.take_take, Nat.min_eq_left (Nat.le_of_lt inTake)]

/-- What `sanitize_string` leaves behind. -/
structure Sanitized (memory after : Memory) (input : Bytes) (output outputSize : Nat) : Prop where
  /-- No byte outside of the output is written. -/
  bounded : ∀ address, address < output ∨ output + outputSize ≤ address →
    after address = memory address
  /-- The output is a C string in which only entities have a meaning. -/
  text : ∃ text, Holds after output (text ++ [0]) ∧ text.length < outputSize ∧
    (∀ byte ∈ text, byte ∉ ([0, 60, 62, 34, 39] : Bytes)) ∧ AmpersandsAreEntities input text

theorem sanitizeString_sanitized (memory : Memory) (input : Bytes) (output : Nat)
    {outputSize : Nat} (positive : 1 ≤ outputSize) :
    (sanitizeString memory (some input) (some output) outputSize).1 = 0 ∧
      Sanitized memory (sanitizeString memory (some input) (some output) outputSize).2 input
        output outputSize := by
  obtain ⟨count, within, looped, bound⟩ :=
    sanitizeLoop_eq output outputSize input { memory := memory, outIndex := 0 } (Nat.zero_le _)
  rw [looped] at bound
  have length : ((input.take count).flatMap sanitized).length ≤ outputSize - 1 := by
    simpa [SanitizeState.emit] using bound
  have result : sanitizeString memory (some input) (some output) outputSize =
      (0, writeBytes memory output ((input.take count).flatMap sanitized ++ [0])) := by
    simp only [sanitizeString, if_neg (Nat.ne_of_gt positive), looped, SanitizeState.emit,
      Nat.add_zero, Nat.zero_add, writeBytes_append]
  rw [result]
  refine ⟨rfl, fun address outside => ?_, _, holds_writeBytes_self _ _ _, by omega,
    fun byte member => ?_, ampersandsAreEntities within⟩
  · refine writeBytes_of_outside ?_
    rw [List.length_append, List.length_singleton]
    omega
  · obtain ⟨c, -, inPiece⟩ := List.mem_flatMap.mp member
    rcases sanitized_cases c with entity | plain
    · exact (entity_bytes _ entity).2 byte inPiece
    · have others := plain byte inPiece
      simp only [List.mem_cons, List.not_mem_nil, or_false, not_or] at others ⊢
      tauto

theorem sanitizeString_sanitized_tag :
    (sanitizeString (fun _ => 7) (some (ascii "<a>")) (some 64) 8).1 = 0 ∧
      Sanitized (fun _ => 7) (sanitizeString (fun _ => 7) (some (ascii "<a>")) (some 64) 8).2
        (ascii "<a>") 64 8 :=
  sanitizeString_sanitized (fun _ => 7) (ascii "<a>") 64 (by decide)

/-- The closing bracket of the tag does not fit any more. -/
example : readBytes (sanitizeString (fun _ => 7) (some (ascii "<a>")) (some 64) 8).2 64 8 =
    ascii "&lt;a" ++ [0, 7, 7] := by
  decide

end Jdbx
