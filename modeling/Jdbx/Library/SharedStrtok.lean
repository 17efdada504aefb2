import Jdbx.Library.Strtok

/-!
# Callers that share the cursor of `strtok`

`strtok` keeps its position in one static cursor.  Here it works on memory: a
token ends where `strtok` writes a `NUL`, and a caller reads its tokens later,
as the memory then is.  Callers take their calls in any order.  If every call
that continues finds the cursor in a buffer of its own caller, each caller goes
through the states that it goes through alone.
-/

namespace Jdbx.Library

/-- The memory, the cursor and the token after one call of `strtok` at an
offset. -/
structure StrtokResult where
  memory : Bytes
  cursor : Nat
  token : Option Nat

/-- `strtok` at an offset of a block: `strspn` over the delimiters, `strcspn`
over the token, and a `NUL` in place of the delimiter behind it. -/
def strtokAt (delimiters memory : Bytes) (offset : Nat) : StrtokResult :=
  let start := offset + ((memory.drop offset).takeWhile (· ∈ delimiters)).length
  if memory.getD start 0 = 0 then
    { memory := memory, cursor := start, token := none }
  else
    let stop :=
      start + ((memory.drop start).takeWhile fun byte => byte ≠ 0 ∧ byte ∉ delimiters).length
    if memory.getD stop 0 = 0 then
      { memory := memory, cursor := stop, token := some start }
    else
      { memory := memory.set stop 0, cursor := stop + 1, token := some start }

theorem takeWhile_stop {α : Type} {p : α → Bool} {kept : List α} {stop : α}
    (all : ∀ item ∈ kept, p item = true) (stops : p stop = false) (rest : List α) :
    (kept ++ stop :: rest).takeWhile p = kept := by
  rw [List.takeWhile_append_of_pos all, List.takeWhile_cons_of_neg (by simp [stops]),
    List.append_nil]

theorem cString_append_nul {text : Bytes} (nulFree : NulFree text) (behind : Bytes) :
    cString (text ++ 0 :: behind) = text := by
  refine takeWhile_stop ?_ (by simp) behind
  intro byte member
  have notNul : byte ≠ 0 := by
    rintro rfl
    exact nulFree member
  simpa using notNul

private theorem getD_append (before : Bytes) (byte : UInt8) (behind : Bytes) :
    (before ++ byte :: behind).getD before.length 0 = byte := by
  simp

theorem strtokAt_none {delimiters text : Bytes} (noNul : (0 : UInt8) ∉ delimiters)
    (call : strtok delimiters text = none) (before behind : Bytes) :
    (strtokAt delimiters (before ++ (text ++ 0 :: behind)) before.length).token = none := by
  have all := strtok_eq_none_iff.mp call
  have skip :
      ((before ++ (text ++ 0 :: behind)).drop before.length).takeWhile (· ∈ delimiters) = text := by
    rw [List.drop_left]
    exact takeWhile_stop (by simpa using all) (by simpa using noNul) behind
  have atNul : (before ++ (text ++ 0 :: behind)).getD (before.length + text.length) 0 = 0 := by
    rw [List.getD, ← List.append_assoc, ← List.length_append, List.getElem?_append_right (Nat.le_refl _)]
    simp
  unfold strtokAt
  simp only [skip, atNul, ↓reduceIte]

theorem strtokAt_span {delimiters skipped token : Bytes} {stop : UInt8}
    (allSkipped : ∀ byte ∈ skipped, byte ∈ delimiters) (nonempty : token ≠ [])
    (inside : ∀ byte ∈ token, byte ≠ 0 ∧ byte ∉ delimiters) (stops : stop = 0 ∨ stop ∈ delimiters)
    (before after : Bytes) :
    strtokAt delimiters (before ++ (skipped ++ (token ++ stop :: after))) before.length =
      if stop = 0 then
        { memory := before ++ (skipped ++ (token ++ stop :: after))
          cursor := (before ++ (skipped ++ token)).length
          token := some (before.length + skipped.length) }
      else
        { memory := before ++ (skipped ++ (token ++ 0 :: after))
          cursor := (before ++ (skipped ++ (token ++ [0]))).length
          token := some (before.length + skipped.length) } := by
  obtain ⟨first, others, tokenEqual⟩ := List.exists_cons_of_ne_nil nonempty
  have firstInside := inside first (tokenEqual ▸ List.mem_cons_self)
  have skip : ((before ++ (skipped ++ (token ++ stop :: after))).drop before.length).takeWhile
      (· ∈ delimiters) = skipped := by
    rw [List.drop_left, tokenEqual, List.cons_append]
    exact takeWhile_stop (by simpa using allSkipped) (by simpa using firstInside.2) _
  have atStart : (before ++ (skipped ++ (token ++ stop :: after))).getD
      (before.length + skipped.length) 0 ≠ 0 := by
    rw [tokenEqual, List.cons_append, ← List.append_assoc, ← List.length_append, getD_append]
    exact firstInside.1
  have span : ((before ++ (skipped ++ (token ++ stop :: after))).drop
      (before.length + skipped.length)).takeWhile
        (fun byte => byte ≠ 0 ∧ byte ∉ delimiters) = token := by
    rw [← List.append_assoc, ← List.length_append, List.drop_left]
    refine takeWhile_stop ?_ ?_ _
    · intro byte member
      simpa using inside byte member
    · rcases stops with zero | isDelimiter
      · simp [zero]
      · simp [isDelimiter]
  have atStop : (before ++ (skipped ++ (token ++ stop :: after))).getD
      (before.length + skipped.length + token.length) 0 = stop := by
    rw [← List.append_assoc, ← List.append_assoc, ← List.length_append, ← List.length_append,
      getD_append]
  unfold strtokAt
  simp only [skip, atStart, ↓reduceIte, span, atStop]
  split_ifs with zero
  · simp [Nat.add_assoc]
  · have written : (before ++ (skipped ++ (token ++ stop :: after))).set
        (before.length + skipped.length + token.length) 0 =
          before ++ (skipped ++ (token ++ 0 :: after)) := by
      rw [← List.append_assoc, ← List.append_assoc, ← List.length_append,
        ← List.length_append, List.set_append_right _ _ (Nat.le_refl _)]
      simp
    rw [written]
    simp [Nat.add_assoc]

theorem strtokAt_copy {delimiters text token rest : Bytes} (noNul : (0 : UInt8) ∉ delimiters)
    (nulFree : NulFree text) (call : strtok delimiters text = some (token, rest))
    (before behind : Bytes) :
    ∃ skipped ending,
      strtokAt delimiters (before ++ (text ++ 0 :: behind)) before.length =
          { memory := before ++ (skipped ++ (token ++ ending)) ++ (rest ++ 0 :: behind)
            cursor := (before ++ (skipped ++ (token ++ ending))).length
            token := some (before.length + skipped.length) } ∧
        (ending = [0] ∨ ending = [] ∧ rest = []) := by
  obtain ⟨skipped, allSkipped, nonempty, inside, layout⟩ := strtok_layout call
  have both : ∀ byte ∈ token, byte ≠ 0 ∧ byte ∉ delimiters := by
    intro byte member
    refine ⟨?_, inside byte member⟩
    rintro rfl
    apply nulFree
    rcases layout with ⟨whole, -⟩ | ⟨delimiter, -, whole⟩
    · rw [whole]
      exact List.mem_append_right _ member
    · rw [whole]
      exact List.mem_append_right _ (List.mem_append_left _ member)
  rcases layout with ⟨whole, none⟩ | ⟨delimiter, isDelimiter, whole⟩
  · refine ⟨skipped, [], ?_, Or.inr ⟨rfl, none⟩⟩
    have found := strtokAt_span allSkipped nonempty both (Or.inl rfl) before behind
    rw [whole, none, List.append_assoc, found, if_pos rfl]
    simp only [List.append_assoc, List.append_nil, List.nil_append]
  · refine ⟨skipped, [0], ?_, Or.inl rfl⟩
    have notNul : delimiter ≠ 0 := by
      rintro rfl
      exact noNul isDelimiter
    have found := strtokAt_span allSkipped nonempty both (Or.inr isDelimiter) before
      (rest ++ 0 :: behind)
    rw [if_neg notNul] at found
    rw [whole, List.append_assoc, List.append_assoc, List.cons_append, found]
    simp only [List.append_assoc, List.cons_append, List.nil_append]

/-! ## Callers -/

/-- The arguments of a call: the buffer to start on, or `none` for `NULL`, and
the delimiters. -/
structure StrtokRequest where
  buffer : Option Bytes
  delimiters : Bytes

/-- A caller of `strtok`: the next call it makes, if it has not finished, and
how it goes on.  To go on it sees every result it was given, newest first, as
the memory that stands there now. -/
structure StrtokCaller (σ : Type) where
  request : σ → Option StrtokRequest
  resume : σ → List (Option Bytes) → σ

/-- A place in a buffer of some caller. -/
structure StrtokPointer (ι : Type) where
  owner : ι
  buffer : Nat
  offset : Nat
  deriving DecidableEq

variable {ι σ : Type} [DecidableEq ι]

/-- All callers with their buffers, the results they hold, and the cursor. -/
structure StrtokState (ι σ : Type) where
  buffers : ι → List Bytes
  results : ι → List (Option (StrtokPointer ι))
  caller : ι → σ
  cursor : Option (StrtokPointer ι)

namespace StrtokState

def update {α : Type} (table : ι → α) (who : ι) (value : α) : ι → α :=
  fun other => if other = who then value else table other

@[simp]
theorem update_self {α : Type} (table : ι → α) (who : ι) (value : α) :
    update table who value who = value :=
  if_pos rfl

theorem update_of_ne {α : Type} (table : ι → α) {who other : ι} (different : other ≠ who)
    (value : α) : update table who value other = table other :=
  if_neg different

def read (buffers : ι → List Bytes) (place : StrtokPointer ι) : Bytes :=
  ((buffers place.owner).getD place.buffer []).drop place.offset

def startOf (state : StrtokState ι σ) (who : ι) (request : StrtokRequest) :
    (ι → List Bytes) × Option (StrtokPointer ι) :=
  match request.buffer with
  | some text =>
      (update state.buffers who (state.buffers who ++ [text]),
        some { owner := who, buffer := (state.buffers who).length, offset := 0 })
  | none => (state.buffers, state.cursor)

/-- `strtok` at a cursor: the buffers, the result and the new cursor. -/
def callAt (delimiters : Bytes) (buffers : ι → List Bytes) :
    Option (StrtokPointer ι) →
      (ι → List Bytes) × Option (StrtokPointer ι) × Option (StrtokPointer ι)
  | none => (buffers, none, none)
  | some start =>
      let result :=
        strtokAt delimiters ((buffers start.owner).getD start.buffer []) start.offset
      (update buffers start.owner ((buffers start.owner).set start.buffer result.memory),
        result.token.map fun offset => { start with offset := offset },
        some { start with offset := result.cursor })

/-- One `strtok` call and what the caller does up to its next one. -/
def step (program : StrtokCaller σ) (state : StrtokState ι σ) (who : ι) : StrtokState ι σ :=
  match program.request (state.caller who) with
  | none => state
  | some request =>
      let (buffers, start) := state.startOf who request
      let (buffers, result, cursor) := callAt request.delimiters buffers start
      let results := result :: state.results who
      { buffers := buffers
        results := update state.results who results
        caller := update state.caller who
          (program.resume (state.caller who) (results.map fun result => result.map (read buffers)))
        cursor := cursor }

def run (program : StrtokCaller σ) (state : StrtokState ι σ) (schedule : List ι) :
    StrtokState ι σ :=
  schedule.foldl (step program) state

/-- The next call of `who`, if it continues, finds the cursor in a buffer of
`who`. -/
def CursorKept (program : StrtokCaller σ) (state : StrtokState ι σ) (who : ι) : Prop :=
  ∀ request ∈ program.request (state.caller who), request.buffer = none →
    ∃ place ∈ state.cursor, place.owner = who

instance (program : StrtokCaller σ) (state : StrtokState ι σ) (who : ι) :
    Decidable (CursorKept program state who) :=
  inferInstanceAs (Decidable (∀ request ∈ program.request (state.caller who),
    request.buffer = none → ∃ place ∈ state.cursor, place.owner = who))

/-- `CursorKept` at every step of a schedule. -/
def CursorKeptThroughout (program : StrtokCaller σ) (state : StrtokState ι σ) :
    List ι → Prop
  | [] => True
  | who :: schedule =>
      CursorKept program state who ∧
        CursorKeptThroughout program (step program state who) schedule

instance decidableCursorKeptThroughout (program : StrtokCaller σ) :
    (state : StrtokState ι σ) → (schedule : List ι) →
      Decidable (CursorKeptThroughout program state schedule)
  | _, [] => isTrue trivial
  | state, who :: schedule =>
      letI := decidableCursorKeptThroughout program (step program state who) schedule
      inferInstanceAs (Decidable (CursorKept program state who ∧
        CursorKeptThroughout program (step program state who) schedule))

/-- What one caller can observe is the same in two states. -/
structure Agrees (who : ι) (shared alone : StrtokState ι σ) : Prop where
  buffers : shared.buffers who = alone.buffers who
  results : shared.results who = alone.results who
  caller : shared.caller who = alone.caller who
  owned : ∀ place, some place ∈ shared.results who → place.owner = who
  cursor : ∀ place, shared.cursor = some place → place.owner = who → shared.cursor = alone.cursor

variable {program : StrtokCaller σ} {who : ι}

theorem callAt_owner (delimiters : Bytes) (buffers : ι → List Bytes) {start : StrtokPointer ι}
    (owner : start.owner = who) :
    (∀ other, other ≠ who →
        (callAt delimiters buffers (some start)).1 other = buffers other) ∧
      (∀ place, (callAt delimiters buffers (some start)).2.1 = some place → place.owner = who) ∧
        ∀ place, (callAt delimiters buffers (some start)).2.2 = some place →
          place.owner = who := by
  subst owner
  refine ⟨fun other different => update_of_ne _ different _, ?_, ?_⟩
  · intro place result
    obtain ⟨offset, _, rfl⟩ := Option.map_eq_some_iff.mp result
    rfl
  · intro place result
    cases result
    rfl

theorem callAt_congr (delimiters : Bytes) {buffers others : ι → List Bytes}
    {start : StrtokPointer ι} (owner : start.owner = who) (same : buffers who = others who) :
    (callAt delimiters buffers (some start)).1 who =
        (callAt delimiters others (some start)).1 who ∧
      (callAt delimiters buffers (some start)).2 = (callAt delimiters others (some start)).2 := by
  subst owner
  simp only [callAt, update_self, same, and_self]

theorem startOf_owner {state : StrtokState ι σ} {request : StrtokRequest}
    (kept : CursorKept program state who)
    (next : program.request (state.caller who) = some request) :
    ∃ start, (state.startOf who request).2 = some start ∧ start.owner = who := by
  cases buffer : request.buffer with
  | none =>
      obtain ⟨place, cursor, owner⟩ := kept request next buffer
      refine ⟨place, ?_, owner⟩
      rw [startOf, buffer]
      exact cursor
  | some text => exact ⟨_, by simp only [startOf, buffer]; rfl, rfl⟩

theorem startOf_buffers_of_ne (state : StrtokState ι σ) {who other : ι}
    (different : other ≠ who) (request : StrtokRequest) :
    (state.startOf who request).1 other = state.buffers other := by
  unfold startOf
  split
  · exact update_of_ne _ different _
  · rfl

theorem agrees_step_of_ne {shared alone : StrtokState ι σ} {who other : ι}
    (different : who ≠ other) (agrees : Agrees who shared alone)
    (kept : CursorKept program shared other) :
    Agrees who (step program shared other) alone := by
  unfold step
  split
  · exact agrees
  · rename_i request next
    obtain ⟨start, startEqual, owner⟩ := startOf_owner kept next
    obtain ⟨untouched, _, cursorOwner⟩ :=
      callAt_owner request.delimiters (shared.startOf other request).1 owner
    simp only [startEqual]
    refine
      { buffers := ?_
        results := (update_of_ne _ different _).trans agrees.results
        caller := (update_of_ne _ different _).trans agrees.caller
        owned := ?_
        cursor := ?_ }
    · calc
        _ = (shared.startOf other request).1 who := untouched who different
        _ = shared.buffers who := startOf_buffers_of_ne shared different request
        _ = alone.buffers who := agrees.buffers
    · intro place member
      simp only [update_of_ne _ different] at member
      exact agrees.owned place member
    · intro place cursor mine
      exact absurd (mine.symm.trans (cursorOwner place cursor)) different

theorem agrees_step_self {shared alone : StrtokState ι σ} (agrees : Agrees who shared alone)
    (kept : CursorKept program shared who) :
    Agrees who (step program shared who) (step program alone who) := by
  unfold step
  rw [← agrees.caller]
  split
  · exact agrees
  · rename_i request next
    obtain ⟨start, startEqual, owner⟩ := startOf_owner kept next
    have sameStart :
        (alone.startOf who request).2 = some start ∧
          (shared.startOf who request).1 who = (alone.startOf who request).1 who := by
      unfold startOf at startEqual ⊢
      cases buffer : request.buffer with
      | none =>
          simp only [buffer] at startEqual ⊢
          rw [← agrees.cursor start startEqual owner]
          exact ⟨startEqual, agrees.buffers⟩
      | some text =>
          simp only [buffer, agrees.buffers, update_self] at startEqual ⊢
          exact ⟨startEqual, trivial⟩
    obtain ⟨sameBuffers, sameOutcome⟩ :=
      callAt_congr request.delimiters owner sameStart.2
    obtain ⟨_, resultOwner, _⟩ :=
      callAt_owner request.delimiters (shared.startOf who request).1 owner
    simp only [startEqual, sameStart.1, ← sameOutcome, ← agrees.results]
    have owned : ∀ place,
        some place ∈ (callAt request.delimiters (shared.startOf who request).1
          (some start)).2.1 :: shared.results who → place.owner = who := by
      intro place member
      rcases List.mem_cons.mp member with newest | older
      · exact resultOwner place newest.symm
      · exact agrees.owned place older
    refine
      { buffers := sameBuffers
        results := by simp only [update_self]
        caller := ?_
        owned := ?_
        cursor := fun _ _ _ => rfl }
    · simp only [update_self]
      refine congrArg _ (List.map_congr_left ?_)
      intro result member
      cases result with
      | none => rfl
      | some place => simp only [Option.map_some, read, owned place member, sameBuffers]
    · intro place member
      simp only [update_self] at member
      exact owned place member

theorem agrees_run (schedule : List ι) :
    ∀ shared alone : StrtokState ι σ, Agrees who shared alone →
      CursorKeptThroughout program shared schedule →
        Agrees who (run program shared schedule)
          (run program alone (List.replicate (schedule.count who) who)) := by
  induction schedule with
  | nil =>
      intro shared alone agrees _
      exact agrees
  | cons next schedule ih =>
      intro shared alone agrees kept
      by_cases own : next = who
      · subst next
        rw [List.count_cons_self, List.replicate_succ]
        exact ih _ _ (agrees_step_self agrees kept.1) kept.2
      · rw [List.count_cons_of_ne own]
        exact ih _ _ (agrees_step_of_ne (Ne.symm own) agrees kept.1) kept.2

def initial (caller : ι → σ) : StrtokState ι σ where
  buffers _ := []
  results _ := []
  caller := caller
  cursor := none

omit [DecidableEq ι] in
theorem agrees_initial (caller : ι → σ) (who : ι) :
    Agrees who (initial caller) (initial caller) where
  buffers := rfl
  results := rfl
  caller := rfl
  owned := fun _ member => absurd member List.not_mem_nil
  cursor := fun _ _ _ => rfl

section Alone

variable {program : StrtokCaller σ} {text delimiters behind token rest : Bytes}
  {state : StrtokState ι σ} {who : ι}

theorem strtok_nulFree (nulFree : NulFree text)
    (call : strtok delimiters text = some (token, rest)) :
    token ≠ [] ∧ NulFree token ∧ NulFree rest := by
  obtain ⟨skipped, _, nonempty, _, layout⟩ := strtok_layout call
  refine ⟨nonempty, ?_, ?_⟩
  · intro member
    refine nulFree ?_
    rcases layout with ⟨rfl, _⟩ | ⟨_, _, rfl⟩
    · exact List.mem_append_right _ member
    · exact List.mem_append_right _ (List.mem_append_left _ member)
  · intro member
    refine nulFree ?_
    rcases layout with ⟨_, rfl⟩ | ⟨_, _, rfl⟩
    · exact absurd member List.not_mem_nil
    · exact List.mem_append_right _
        (List.mem_append_right _ (List.mem_cons_of_mem _ member))

end Alone

end StrtokState

end Jdbx.Library
