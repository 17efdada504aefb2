import Mathlib.Data.List.Basic
import Mathlib.Data.List.Induction

/-!
# A table whose rows are started and advanced by events

Each event is about one key.  It advances the row of the key, or starts one if
there is none and the table has room.  So what becomes of a key is told by the
events about it, but for the room.
-/

namespace Jdbx.Library

section Keys

variable {Key : Type} [DecidableEq Key]

def note (capacity : Nat) (keys : List Key) (key : Key) : List Key :=
  if keys.length < capacity ∧ key ∉ keys then keys ++ [key] else keys

def firstKeys (capacity : Nat) (keys : List Key) : List Key :=
  keys.eraseDups.take capacity

@[simp]
theorem firstKeys_nil (capacity : Nat) : firstKeys capacity ([] : List Key) = [] :=
  List.take_nil

theorem mem_of_mem_firstKeys {capacity : Nat} {keys : List Key} {key : Key}
    (noted : key ∈ firstKeys capacity keys) : key ∈ keys :=
  List.mem_eraseDups.mp (List.mem_of_mem_take noted)

theorem eraseDups_concat (keys : List Key) (key : Key) :
    (keys ++ [key]).eraseDups =
      if key ∈ keys then keys.eraseDups else keys.eraseDups ++ [key] := by
  rw [List.eraseDups_append]
  by_cases known : key ∈ keys
  · simp [known, List.removeAll]
  · simp [known, List.removeAll, List.eraseDups_cons]

theorem foldl_note (capacity : Nat) (keys : List Key) :
    keys.foldl (note capacity) [] = firstKeys capacity keys := by
  induction keys using List.reverseRecOn with
  | nil => simp [firstKeys]
  | append_singleton keys key ih =>
      rw [List.foldl_concat, ih, firstKeys, firstKeys, eraseDups_concat, note,
        List.length_take]
      by_cases room : keys.eraseDups.length < capacity
      · rw [List.take_of_length_le (Nat.le_of_lt room), Nat.min_eq_right (Nat.le_of_lt room)]
        by_cases known : key ∈ keys
        · rw [if_neg (by simp [known]), if_pos known, List.take_of_length_le (Nat.le_of_lt room)]
        · rw [if_pos ⟨room, by simpa using known⟩, if_neg known, List.take_of_length_le]
          rw [List.length_append, List.length_singleton]
          exact room
      · have full : capacity ≤ keys.eraseDups.length := Nat.le_of_not_lt room
        rw [if_neg (by omega)]
        split_ifs
        · rfl
        · rw [List.take_append_of_le_length full]

end Keys

/-! ## Rows -/

/-- How events start and advance rows; neither changes whose row it is. -/
structure Bookkeeping (Event Row Key : Type) where
  eventKey : Event → Key
  rowKey : Row → Key
  start : Event → Option Row
  advance : Row → Event → Row
  start_key : ∀ {event row}, start event = some row → rowKey row = eventKey event
  advance_key : ∀ row event, rowKey (advance row event) = rowKey row

namespace Bookkeeping

variable {Event Row Key : Type} [DecidableEq Key] (books : Bookkeeping Event Row Key)

/-- What an event does to a table with room for so many rows. -/
def turn (capacity : Nat) (rows : List Row) (event : Event) : List Row :=
  if books.eventKey event ∈ rows.map books.rowKey then
    rows.map fun row =>
      if books.rowKey row = books.eventKey event then books.advance row event else row
  else
    match books.start event with
    | some row => if rows.length < capacity then rows ++ [row] else rows
    | none => rows

def tabled (capacity : Nat) (events : List Event) : List Key :=
  firstKeys capacity
    ((events.filter fun event => (books.start event).isSome).map books.eventKey)

def follow (known : Option Row) (event : Event) : Option Row :=
  match known with
  | some row => some (books.advance row event)
  | none => books.start event

def history (events : List Event) (key : Key) : Option Row :=
  (events.filter (books.eventKey · = key)).foldl books.follow none

variable {books} {events : List Event} {key : Key} {rows : List Row} {capacity : Nat}

theorem history_concat (events : List Event) (event : Event) (key : Key) :
    books.history (events ++ [event]) key =
      if books.eventKey event = key then books.follow (books.history events key) event
      else books.history events key := by
  by_cases about : books.eventKey event = key
  · simp [history, List.filter_append, about]
  · simp [history, List.filter_append, about]

theorem isSome_history_iff :
    (books.history events key).isSome ↔
      ∃ event ∈ events, (books.start event).isSome ∧ books.eventKey event = key := by
  induction events using List.reverseRecOn with
  | nil => simp [history]
  | append_singleton events event ih =>
      rw [history_concat]
      by_cases about : books.eventKey event = key
      · rw [if_pos about]
        cases known : books.history events key with
        | none =>
            simp only [known, Option.isSome_none, Bool.false_eq_true, false_iff] at ih
            simp only [follow, List.mem_append, List.mem_singleton, or_and_right, exists_or,
              ih, false_or, exists_eq_left, about, and_true]
        | some row =>
            rw [known] at ih
            obtain ⟨first, member, starts⟩ := ih.mp rfl
            simp only [follow, Option.isSome_some, true_iff]
            exact ⟨first, List.mem_append_left [event] member, starts⟩
      · rw [if_neg about, ih]
        simp [or_and_right, exists_or, about]

theorem map_rowKey_turn (capacity : Nat) (rows : List Row) (event : Event) :
    (books.turn capacity rows event).map books.rowKey =
      if (books.start event).isSome then
        note capacity (rows.map books.rowKey) (books.eventKey event)
      else rows.map books.rowKey := by
  rw [turn, note, List.length_map]
  by_cases known : books.eventKey event ∈ rows.map books.rowKey
  · have same : ∀ row, books.rowKey (if books.rowKey row = books.eventKey event then
        books.advance row event else row) = books.rowKey row := by
      intro row
      split_ifs
      · exact books.advance_key row event
      · rfl
    simp [known, same, Function.comp_def]
  · rw [if_neg known]
    cases started : books.start event with
    | none => simp
    | some row =>
        by_cases room : rows.length < capacity
        · simp [room, known, books.start_key started]
        · simp [room]

theorem map_rowKey_foldl_turn (capacity : Nat) (events : List Event) :
    (events.foldl (books.turn capacity) []).map books.rowKey = books.tabled capacity events := by
  induction events using List.reverseRecOn with
  | nil => simp [tabled]
  | append_singleton events event ih =>
      rw [tabled, ← foldl_note] at ih ⊢
      rw [List.foldl_concat, map_rowKey_turn, ih, List.filter_append,
        List.map_append, List.foldl_append]
      by_cases starts : (books.start event).isSome
      · simp [starts]
      · simp [starts]

theorem find?_map_advance {event : Event} :
    (rows.map fun row =>
      if books.rowKey row = books.eventKey event then books.advance row event else row).find?
        (books.rowKey · = key) =
      (rows.find? (books.rowKey · = key)).map fun row =>
        if key = books.eventKey event then books.advance row event else row := by
  induction rows with
  | nil => rfl
  | cons row rows ih =>
      rw [List.map_cons, List.find?_cons, List.find?_cons]
      by_cases found : books.rowKey row = key
      · by_cases about : key = books.eventKey event
        · simp [found, about, books.advance_key]
        · simp [found, about]
      · have other : books.rowKey (if books.rowKey row = books.eventKey event then
            books.advance row event else row) ≠ key := by
          split_ifs
          · rwa [books.advance_key]
          · exact found
        simp only [other, found, decide_false, ih]

theorem isSome_history_of_mem (present : key ∈ books.tabled capacity events) :
    (books.history events key).isSome := by
  obtain ⟨event, member, about⟩ := List.mem_map.mp (mem_of_mem_firstKeys present)
  obtain ⟨inside, starts⟩ := List.mem_filter.mp member
  exact isSome_history_iff.mpr ⟨event, inside, starts, about⟩

theorem mem_tabled_of_room (room : (books.tabled capacity events).length < capacity)
    (started : (books.history events key).isSome) : key ∈ books.tabled capacity events := by
  obtain ⟨event, member, starts, about⟩ := isSome_history_iff.mp started
  have all : ∀ keys : List Key, (keys.take capacity).length < capacity →
      keys.take capacity = keys := by
    intro keys short
    apply List.take_of_length_le
    rw [List.length_take] at short
    omega
  rw [tabled, firstKeys, all _ room, List.mem_eraseDups, List.mem_map]
  exact ⟨event, List.mem_filter.mpr ⟨member, starts⟩, about⟩

theorem find?_eq_none_of_not_mem (absent : key ∉ rows.map books.rowKey) :
    rows.find? (books.rowKey · = key) = none := by
  rw [List.find?_eq_none]
  intro row member found
  exact absent (List.mem_map.mpr ⟨row, member, of_decide_eq_true found⟩)

theorem isSome_find?_of_mem (present : key ∈ rows.map books.rowKey) :
    (rows.find? (books.rowKey · = key)).isSome := by
  obtain ⟨row, member, found⟩ := List.mem_map.mp present
  rw [List.find?_isSome]
  exact ⟨row, member, decide_eq_true found⟩

/-- A row of the table is what the events about its key make of it. -/
theorem find?_eq_history :
    ∀ {key : Key}, key ∈ books.tabled capacity events →
      (events.foldl (books.turn capacity) []).find? (books.rowKey · = key) =
        books.history events key := by
  induction events using List.reverseRecOn with
  | nil => simp [tabled]
  | append_singleton events event ih =>
      intro key present
      have keys : (events.foldl (books.turn capacity) []).map books.rowKey =
          books.tabled capacity events := map_rowKey_foldl_turn capacity events
      rw [← map_rowKey_foldl_turn, List.foldl_concat] at present
      rw [List.foldl_concat, history_concat]
      by_cases known : books.eventKey event ∈ books.tabled capacity events
      · -- The event advances a row, and the keys of the table stay.
        rw [turn, keys, if_pos known, find?_map_advance]
        have old : key ∈ books.tabled capacity events := by
          rw [map_rowKey_turn, keys] at present
          simpa [note, known] using present
        have row := isSome_find?_of_mem (keys ▸ old)
        rw [ih old] at row ⊢
        obtain ⟨row, history⟩ := Option.isSome_iff_exists.mp row
        by_cases about : books.eventKey event = key
        · simp [history, about, follow]
        · simp [history, about, Ne.symm about]
      · have stays : key ∈ books.tabled capacity events →
            (events.foldl (books.turn capacity) []).find? (books.rowKey · = key) =
              if books.eventKey event = key then books.follow (books.history events key) event
              else books.history events key := by
          intro old
          have other : books.eventKey event ≠ key := fun about => known (about.symm ▸ old)
          rw [if_neg other, ih old]
        rw [turn, keys, if_neg known] at present ⊢
        cases started : books.start event with
        | none =>
            simp only [started, keys] at present ⊢
            exact stays present
        | some row =>
            have about : books.rowKey row = books.eventKey event := books.start_key started
            by_cases room : (events.foldl (books.turn capacity) []).length < capacity
            · simp only [started, room, if_true, List.map_append, keys, List.map_singleton,
                List.mem_append, List.mem_singleton] at present ⊢
              rw [List.find?_append]
              rcases present with old | rfl
              · have other : books.rowKey row ≠ key := fun same => known (about ▸ same ▸ old)
                simp [stays old, other]
              · have unknown : books.rowKey row ∉ books.tabled capacity events := about ▸ known
                have fresh : books.history events (books.rowKey row) = none := by
                  rw [← Option.not_isSome_iff_eq_none]
                  intro before
                  rw [← List.length_map books.rowKey, keys] at room
                  exact unknown (mem_tabled_of_room room before)
                rw [find?_eq_none_of_not_mem (keys.symm ▸ unknown)]
                rw [if_pos about.symm, fresh, follow, started]
                simp
            · simp only [started, room, if_false, keys] at present ⊢
              exact stays present

theorem find?_foldl_turn (books : Bookkeeping Event Row Key) (capacity : Nat)
    (events : List Event) (key : Key) :
    (events.foldl (books.turn capacity) []).find? (books.rowKey · = key) =
      if key ∈ books.tabled capacity events then books.history events key else none := by
  split_ifs with present
  · exact find?_eq_history present
  · rw [← map_rowKey_foldl_turn] at present
    exact find?_eq_none_of_not_mem present

end Bookkeeping

end Jdbx.Library
