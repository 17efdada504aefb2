import Jdbx.Library.SharedStrtok

/-!
# All tokens of a text

The tokens that repeated calls of `strtok` take from a text.  In front of a text that ends
in a delimiter, another text changes neither the tokens nor where they end.  The tokens
between single delimiters are the parts of the text that are not empty.
-/

namespace Jdbx.Library

variable {delimiters text token rest ending body : Bytes} {delimiter : UInt8}

/-- The tokens, each with the text behind the delimiter at its end.  A call takes a byte at
least, so the length of the text is enough fuel. -/
def tokens (delimiters : Bytes) : Nat → Bytes → List (Bytes × Bytes)
  | 0, _ => []
  | fuel + 1, text =>
      match strtok delimiters text with
      | none => []
      | some parts => parts :: tokens delimiters fuel parts.2

theorem strtok_shorter (call : strtok delimiters text = some (token, rest)) :
    rest.length < text.length := by
  obtain ⟨skipped, -, nonempty, -, layout⟩ := strtok_layout call
  have positive : 0 < token.length := List.length_pos_iff.mpr nonempty
  rcases layout with ⟨rfl, rfl⟩ | ⟨delimiter, -, rfl⟩
  · rw [List.length_append, List.length_nil]
    omega
  · rw [List.length_append, List.length_append, List.length_cons]
    omega

theorem tokens_fuel : ∀ (fuel : Nat) {text : Bytes}, text.length ≤ fuel →
    tokens delimiters fuel text = tokens delimiters text.length text := by
  have both : ∀ (fuel other : Nat) {text : Bytes}, text.length ≤ fuel → text.length ≤ other →
      tokens delimiters fuel text = tokens delimiters other text := by
    intro fuel
    induction fuel with
    | zero =>
        intro other text none _
        have empty : text = [] := List.eq_nil_of_length_eq_zero (Nat.le_zero.mp none)
        cases other with
        | zero => rfl
        | succ other =>
            rw [empty]
            rfl
    | succ fuel ih =>
        intro other text enough otherEnough
        cases other with
        | zero =>
            have empty : text = [] := List.eq_nil_of_length_eq_zero (Nat.le_zero.mp otherEnough)
            rw [empty]
            rfl
        | succ other =>
            rw [tokens, tokens]
            cases call : strtok delimiters text with
            | none => rfl
            | some parts =>
                have shorter := strtok_shorter call
                simp only [List.cons.injEq, true_and]
                exact ih other (by omega) (by omega)
  exact fun fuel text enough => both fuel text.length enough (Nat.le_refl _)

theorem tokens_of_none (call : strtok delimiters text = none) (fuel : Nat) :
    tokens delimiters fuel text = [] := by
  cases fuel with
  | zero => rfl
  | succ fuel => rw [tokens, call]

theorem tokens_of_some (call : strtok delimiters text = some (token, rest)) :
    tokens delimiters text.length text =
      (token, rest) :: tokens delimiters rest.length rest := by
  have shorter := strtok_shorter call
  obtain ⟨fuel, same⟩ : ∃ fuel, text.length = fuel + 1 := ⟨text.length - 1, by omega⟩
  rw [same, tokens, call]
  simp only [List.cons.injEq, true_and]
  exact tokens_fuel fuel (by omega)

theorem strtok_ending (call : strtok delimiters text = some (token, rest))
    (all : ∀ byte ∈ ending, byte ∈ delimiters) (nonempty : ending ≠ [])
    (ends : ending <:+ text) :
    ∃ skipped, ∃ delimiter ∈ delimiters, (∀ byte ∈ skipped, byte ∈ delimiters) ∧
      text = skipped ++ (token ++ delimiter :: rest) ∧ ending <:+ delimiter :: rest := by
  obtain ⟨skipped, allSkipped, visible, inside, layout⟩ := strtok_layout call
  -- What reached into the token would share the token's last byte with the block.
  have noOverlap : ∀ {others : Bytes}, (∀ byte ∈ others, byte ∈ ending) →
      others <:+ skipped ++ token → others = [] := by
    intro others isPart isEnd
    by_contra some
    have lastByte := List.getLast_mem some
    obtain ⟨front, whole⟩ := isEnd
    have same : others.getLast some = token.getLast visible := by
      have ends : (front ++ others).getLast (by simp [some]) =
          (skipped ++ token).getLast (by simp [visible]) := by
        congr 1
      rwa [List.getLast_append_of_ne_nil _ some, List.getLast_append_of_ne_nil _ visible] at ends
    rw [same] at lastByte
    exact inside _ (List.getLast_mem visible) (all _ (isPart _ lastByte))
  rcases layout with ⟨whole, -⟩ | ⟨delimiter, isDelimiter, whole⟩
  · rw [whole] at ends
    exact absurd (noOverlap (fun _ member => member) ends) nonempty
  · refine ⟨skipped, delimiter, isDelimiter, allSkipped, whole, ?_⟩
    obtain ⟨front, same⟩ := ends
    rw [whole, ← List.append_assoc] at same
    rcases List.append_eq_append_iff.mp same with ⟨between, before, after⟩ | ⟨between, -, after⟩
    · have empty : between = [] := by
        apply noOverlap
        · intro byte member
          rw [after]
          exact List.mem_append_left _ member
        · exact ⟨front, before.symm⟩
      rw [after, empty]
      exact List.suffix_refl _
    · exact ⟨between, after.symm⟩

theorem strtokAt_skip {skipped : Bytes} (all : ∀ byte ∈ skipped, byte ∈ delimiters)
    (before behind : Bytes) :
    strtokAt delimiters (before ++ (skipped ++ behind)) before.length =
      strtokAt delimiters (before ++ (skipped ++ behind)) (before ++ skipped).length := by
  have pass : ∀ byte ∈ skipped, decide (byte ∈ delimiters) = true := by simpa using all
  have start : before.length +
      ((before ++ (skipped ++ behind)).drop before.length |>.takeWhile (· ∈ delimiters)).length =
        (before ++ skipped).length + ((before ++ (skipped ++ behind)).drop
          (before ++ skipped).length |>.takeWhile (· ∈ delimiters)).length := by
    rw [List.drop_left, List.takeWhile_append_of_pos pass, ← List.append_assoc, List.drop_left,
      List.length_append, List.length_append]
    omega
  unfold strtokAt
  simp only [start]

theorem strtokAt_length (delimiters memory : Bytes) (offset : Nat) :
    (strtokAt delimiters memory offset).memory.length = memory.length := by
  unfold strtokAt
  dsimp only
  split_ifs
  · rfl
  · rfl
  · exact List.length_set

def partsFrom (delimiter : UInt8) : Bytes → Bytes × List Bytes
  | [] => ([], [])
  | byte :: text =>
      let parts := partsFrom delimiter text
      if byte = delimiter then ([], parts.1 :: parts.2) else (byte :: parts.1, parts.2)

def nonemptyParts (delimiter : UInt8) (text : Bytes) : List Bytes :=
  ((partsFrom delimiter text).1 :: (partsFrom delimiter text).2).filter (· ≠ [])

section Parts

variable {delimiter : UInt8} {token text skipped : Bytes}

theorem partsFrom_append (inside : ∀ byte ∈ token, byte ≠ delimiter) (text : Bytes) :
    partsFrom delimiter (token ++ text) =
      (token ++ (partsFrom delimiter text).1, (partsFrom delimiter text).2) := by
  induction token with
  | nil => rfl
  | cons byte token ih =>
      have rest := ih fun other member =>
        inside other (List.mem_cons_of_mem byte member)
      rw [List.cons_append, partsFrom, rest, if_neg (inside byte List.mem_cons_self)]
      rfl

theorem nonemptyParts_skip (all : ∀ byte ∈ skipped, byte = delimiter) (text : Bytes) :
    nonemptyParts delimiter (skipped ++ text) = nonemptyParts delimiter text := by
  induction skipped with
  | nil => rfl
  | cons byte skipped ih =>
      have rest := ih fun other member =>
        all other (List.mem_cons_of_mem byte member)
      rw [← rest, nonemptyParts, nonemptyParts, List.cons_append, partsFrom,
        if_pos (all byte List.mem_cons_self), List.filter_cons_of_neg (by simp)]

theorem nonemptyParts_token (nonempty : token ≠ []) (inside : ∀ byte ∈ token, byte ≠ delimiter) :
    nonemptyParts delimiter token = [token] := by
  have parts := partsFrom_append inside []
  rw [List.append_nil] at parts
  simp [nonemptyParts, parts, partsFrom, nonempty]

theorem nonemptyParts_append (nonempty : token ≠ [])
    (inside : ∀ byte ∈ token, byte ≠ delimiter) (text : Bytes) :
    nonemptyParts delimiter (token ++ delimiter :: text) =
      token :: nonemptyParts delimiter text := by
  simp [nonemptyParts, partsFrom_append inside, partsFrom, nonempty]

theorem tokens_eq_nonemptyParts (delimiter : UInt8) :
    ∀ (bound : Nat) (text : Bytes), text.length ≤ bound →
      (tokens [delimiter] text.length text).map Prod.fst = nonemptyParts delimiter text := by
  intro bound
  induction bound with
  | zero =>
      intro text short
      rw [List.eq_nil_of_length_eq_zero (Nat.le_zero.mp short)]
      rfl
  | succ bound ih =>
      intro text short
      cases call : strtok [delimiter] text with
      | none =>
          have all : ∀ byte ∈ text, byte = delimiter := fun byte member =>
            List.mem_singleton.mp (strtok_eq_none_iff.mp call byte member)
          have empty := nonemptyParts_skip all []
          rw [List.append_nil] at empty
          rw [tokens_of_none call, empty]
          rfl
      | some parts =>
          obtain ⟨token, rest⟩ := parts
          have shorter := strtok_shorter call
          obtain ⟨skipped, delimiters, nonempty, notDelimiter, layout⟩ := strtok_layout call
          have all : ∀ byte ∈ skipped, byte = delimiter := fun byte member =>
            List.mem_singleton.mp (delimiters byte member)
          have inside : ∀ byte ∈ token, byte ≠ delimiter := fun byte member same =>
            notDelimiter byte member (List.mem_singleton.mpr same)
          rw [tokens_of_some call, List.map_cons, ih rest (by omega)]
          rcases layout with ⟨rfl, rfl⟩ | ⟨other, isDelimiter, rfl⟩
          · rw [nonemptyParts_skip all, nonemptyParts_token nonempty inside]
            rfl
          · rw [List.mem_singleton.mp isDelimiter, nonemptyParts_skip all,
              nonemptyParts_append nonempty inside]

end Parts

end Jdbx.Library
