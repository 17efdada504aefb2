import Jdbx.Library.CString
import Mathlib.Data.List.Basic

/-!
# Reading a string through a cursor

A C string is read through a pointer that is moved on byte by byte.  A look behind the NUL at its
end and a move behind it are faults, and so is a loop that runs out of fuel.  The rules of the
module say what a scan leaves to be read when it ends without a fault.
-/

namespace Jdbx.Library

/-- What must not happen to a scan. -/
inductive ScanFault where
  | outOfBounds
  | outOfFuel
  deriving DecidableEq, Repr

/-- The cursor, and the greatest depth that a recursion has reached. -/
structure ScanState where
  cursor : Nat
  deepest : Nat
  deriving DecidableEq, Repr

abbrev Scan := StateT ScanState (Except ScanFault)

/-- `*(cursor + ahead)`. -/
def look (text : Bytes) (ahead : Nat) : Scan UInt8 := fun state =>
  if state.cursor + ahead ≤ text.length then
    .ok ((text.drop (state.cursor + ahead)).headD 0, state)
  else .error .outOfBounds

/-- `cursor += count`. -/
def advance (text : Bytes) (count : Nat) : Scan Unit := fun state =>
  if state.cursor + count ≤ text.length then
    .ok ((), { state with cursor := state.cursor + count })
  else .error .outOfBounds

def enter (depth : Nat) : Scan Unit := fun state =>
  .ok ((), { state with deepest := max state.deepest depth })

/-- The bytes from `start` up to the cursor. -/
def copiedFrom (text : Bytes) (start : Nat) : Scan Bytes := fun state =>
  .ok ((text.drop start).take (state.cursor - start), state)

/-- `while (test(*cursor)) cursor++`, with a value that takes the bytes in. -/
def scanWhile {σ : Type} (text : Bytes) (test : UInt8 → Bool) (step : σ → UInt8 → σ) :
    Nat → σ → Scan σ
  | 0, _ => throw .outOfFuel
  | fuel + 1, value => do
      let byte ← look text 0
      if test byte then
        advance text 1
        scanWhile text test step fuel (step value byte)
      else pure value

/-- `strncmp(cursor + ahead, word, strlen(word)) == 0`, which stops at the first difference. -/
def startsWith (text : Bytes) : Bytes → Nat → Scan Bool
  | [], _ => pure true
  | expected :: word, ahead => do
      let byte ← look text ahead
      if byte = expected then startsWith text word (ahead + 1) else pure false

section Rules

variable {α β : Type}

def Ends (scan : Scan α) (state : ScanState) (post : α → ScanState → Prop) : Prop :=
  ∃ result after, scan state = .ok (result, after) ∧ post result after

theorem Ends.pure {result : α} {state : ScanState} {post : α → ScanState → Prop}
    (holds : post result state) : Ends (Pure.pure result) state post :=
  ⟨result, state, rfl, holds⟩

theorem Ends.bind {scan : Scan α} {next : α → Scan β} {state : ScanState}
    {middle : α → ScanState → Prop} {post : β → ScanState → Prop}
    (first : Ends scan state middle)
    (then_ : ∀ result after, middle result after → Ends (next result) after post) :
    Ends (scan >>= next) state post := by
  obtain ⟨result, after, run, holds⟩ := first
  obtain ⟨last, final, run', holds'⟩ := then_ result after holds
  refine ⟨last, final, ?_, holds'⟩
  change (scan state >>= fun outcome => next outcome.1 outcome.2) = _
  rw [run]
  exact run'

theorem Ends.mono {scan : Scan α} {state : ScanState} {post post' : α → ScanState → Prop}
    (ends : Ends scan state post)
    (weaker : ∀ result after, post result after → post' result after) :
    Ends scan state post' := by
  obtain ⟨result, after, run, holds⟩ := ends
  exact ⟨result, after, run, weaker result after holds⟩

variable {text rest : Bytes} {limit : Nat} {state : ScanState}

/-- The cursor stands in front of `rest`, and the recursion has kept to the limit. -/
structure Stands (text : Bytes) (limit : Nat) (rest : Bytes) (state : ScanState) : Prop where
  inside : state.cursor ≤ text.length
  rest : text.drop state.cursor = rest
  shallow : state.deepest ≤ limit

theorem Stands.length (stands : Stands text limit rest state) :
    state.cursor + rest.length = text.length := by
  have dropped := congrArg List.length stands.rest
  rw [List.length_drop] at dropped
  have inside := stands.inside
  omega

theorem Stands.nulFree (stands : Stands text limit rest state) (free : NulFree text) :
    NulFree rest := by
  intro member
  rw [← stands.rest] at member
  exact free (List.mem_of_mem_drop member)

theorem Stands.look {ahead : Nat} (stands : Stands text limit rest state)
    (inside : ahead ≤ rest.length) :
    Ends (look text ahead) state fun byte after =>
      byte = (rest.drop ahead).headD 0 ∧ after = state := by
  refine ⟨_, state, ?_, rfl, rfl⟩
  have whole := stands.length
  rw [Library.look, if_pos (by omega), ← List.drop_drop, stands.rest]

theorem Stands.advance {count : Nat} (stands : Stands text limit rest state)
    (inside : count ≤ rest.length) :
    Ends (advance text count) state fun _ after =>
      Stands text limit (rest.drop count) after := by
  have whole := stands.length
  refine ⟨(), { state with cursor := state.cursor + count }, ?_, ?_⟩
  · rw [Library.advance, if_pos (by omega)]
  · refine ⟨?_, ?_, stands.shallow⟩
    · change state.cursor + count ≤ text.length
      omega
    · rw [← List.drop_drop, stands.rest]

theorem Stands.enter {depth : Nat} (stands : Stands text limit rest state)
    (shallow : depth ≤ limit) :
    Ends (enter depth) state fun _ after => Stands text limit rest after :=
  ⟨(), _, rfl, stands.inside, stands.rest, Nat.max_le.mpr ⟨stands.shallow, shallow⟩⟩

theorem Stands.scanWhile {σ : Type} {test : UInt8 → Bool} {step : σ → UInt8 → σ}
    (stopsAtEnd : test 0 = false) {fuel : Nat} (stands : Stands text limit rest state)
    (enough : rest.length < fuel) (value : σ) :
    Ends (scanWhile text test step fuel value) state fun result after =>
      result = (rest.takeWhile test).foldl step value ∧
        Stands text limit (rest.dropWhile test) after := by
  induction fuel generalizing rest state value with
  | zero => exact absurd enough (Nat.not_lt_zero _)
  | succ fuel ih =>
      rw [Library.scanWhile]
      refine Ends.bind (stands.look (Nat.zero_le _)) fun byte after same => ?_
      obtain ⟨rfl, rfl⟩ := same
      cases rest with
      | nil =>
          rw [List.drop_zero, List.headD_nil, stopsAtEnd]
          exact Ends.pure ⟨rfl, stands⟩
      | cons byte rest =>
          rw [List.drop_zero, List.headD_cons]
          by_cases passes : test byte = true
          · rw [if_pos passes, List.takeWhile_cons_of_pos passes, List.dropWhile_cons_of_pos passes,
              List.foldl_cons]
            refine Ends.bind (stands.advance (Nat.succ_pos _)) fun _ after stands' => ?_
            exact ih stands' (Nat.lt_of_succ_lt_succ enough) (step value byte)
          · rw [if_neg passes, List.takeWhile_cons_of_neg passes, List.dropWhile_cons_of_neg passes]
            exact Ends.pure ⟨rfl, stands⟩

theorem Stands.startsWith (stands : Stands text limit rest state) {word : Bytes}
    (nulFree : NulFree word) {ahead : Nat} (inside : ahead ≤ rest.length) :
    Ends (startsWith text word ahead) state fun result after =>
      result = word.isPrefixOf (rest.drop ahead) ∧ after = state := by
  induction word generalizing ahead with
  | nil => exact Ends.pure ⟨by simp, rfl⟩
  | cons expected word ih =>
      rw [Library.startsWith]
      refine Ends.bind (stands.look inside) fun byte after same => ?_
      obtain ⟨rfl, rfl⟩ := same
      cases left : rest.drop ahead with
      | nil =>
          have different : ¬ (0 : UInt8) = expected := fun isZero =>
            nulFree (isZero ▸ List.mem_cons_self)
          rw [List.headD_nil, if_neg different]
          exact Ends.pure ⟨by simp, rfl⟩
      | cons byte others =>
          have shorter : ahead + 1 ≤ rest.length := by
            have dropped := congrArg List.length left
            rw [List.length_drop, List.length_cons] at dropped
            omega
          have next : rest.drop (ahead + 1) = others := by
            rw [← List.drop_drop, left]
            rfl
          rw [List.headD_cons]
          by_cases same : byte = expected
          · rw [if_pos same]
            refine (ih (fun member =>
              nulFree (List.mem_cons_of_mem _ member)) shorter).mono ?_
            rintro result after ⟨isPrefix, rfl⟩
            refine ⟨?_, rfl⟩
            rw [isPrefix, next, List.isPrefixOf, same]
            simp
          · rw [if_neg same]
            refine Ends.pure ⟨?_, rfl⟩
            simp [List.isPrefixOf, Ne.symm same]

end Rules

end Jdbx.Library
