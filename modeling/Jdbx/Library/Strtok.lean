import Jdbx.Library.CString

/-!
# Splitting a string with `strtok`

One call of `strtok` as a function of the text under the cursor: it skips
delimiters, takes the token up to the next delimiter and leaves the cursor
behind that delimiter.
-/

namespace Jdbx.Library

/-- One call of `strtok` at a text: the token and the text under the new
cursor. -/
def strtok (delimiters text : Bytes) : Option (Bytes × Bytes) :=
  match text.dropWhile (· ∈ delimiters) with
  | [] => none
  | start => some (start.takeWhile (· ∉ delimiters), (start.dropWhile (· ∉ delimiters)).drop 1)

variable {delimiters text token rest : Bytes}

theorem strtok_layout (result : strtok delimiters text = some (token, rest)) :
    ∃ skipped, (∀ byte ∈ skipped, byte ∈ delimiters) ∧ token ≠ [] ∧
      (∀ byte ∈ token, byte ∉ delimiters) ∧
        ((text = skipped ++ token ∧ rest = []) ∨
          ∃ delimiter ∈ delimiters, text = skipped ++ (token ++ delimiter :: rest)) := by
  have whole := List.takeWhile_append_dropWhile (p := (· ∈ delimiters)) (l := text)
  unfold strtok at result
  split at result
  · exact absurd result (by simp)
  · rename_i start notEmpty
    obtain ⟨tokenEqual, restEqual⟩ := Prod.mk.inj (Option.some.inj result)
    have startSplit :=
      List.takeWhile_append_dropWhile (p := (· ∉ delimiters))
        (l := text.dropWhile (· ∈ delimiters))
    have startHead : ∀ first others,
        text.dropWhile (· ∈ delimiters) = first :: others → first ∉ delimiters := by
      intro first others layout member
      have head := List.head?_dropWhile_not (p := (· ∈ delimiters)) text
      rw [layout] at head
      simp [member] at head
    refine ⟨text.takeWhile (· ∈ delimiters), ?_, ?_, ?_, ?_⟩
    · intro byte member
      simpa using List.mem_takeWhile_imp member
    · cases layout : text.dropWhile (· ∈ delimiters) with
      | nil => exact absurd layout notEmpty
      | cons first others =>
          have notDelimiter := startHead first others layout
          rw [layout, List.takeWhile_cons_of_pos (by simpa using notDelimiter)] at tokenEqual
          rw [← tokenEqual]
          exact List.cons_ne_nil _ _
    · intro byte member
      rw [← tokenEqual] at member
      simpa using List.mem_takeWhile_imp member
    · cases after : (text.dropWhile (· ∈ delimiters)).dropWhile (· ∉ delimiters) with
      | nil =>
          rw [after, tokenEqual, List.append_nil] at startSplit
          rw [after] at restEqual
          exact Or.inl ⟨by rw [startSplit, whole], restEqual.symm⟩
      | cons delimiter others =>
          have isDelimiter : delimiter ∈ delimiters := by
            have head :=
              List.head?_dropWhile_not (p := (· ∉ delimiters))
                (text.dropWhile (· ∈ delimiters))
            rw [after] at head
            simpa using head
          rw [after, tokenEqual] at startSplit
          rw [after, List.drop_one, List.tail_cons] at restEqual
          refine Or.inr ⟨delimiter, isDelimiter, ?_⟩
          rw [← restEqual, startSplit, whole]

theorem strtok_eq_none_iff :
    strtok delimiters text = none ↔ ∀ byte ∈ text, byte ∈ delimiters := by
  unfold strtok
  constructor
  · intro call
    split at call
    · rename_i empty
      simpa using empty
    · exact absurd call (by simp)
  · intro all
    have empty : text.dropWhile (· ∈ delimiters) = [] := by
      simpa using all
    rw [empty]

theorem strtok_of_head {first : UInt8} (notDelimiter : first ∉ delimiters) (others : Bytes) :
    strtok delimiters (first :: others) =
      some ((first :: others).takeWhile (· ∉ delimiters),
        ((first :: others).dropWhile (· ∉ delimiters)).drop 1) := by
  have start : (first :: others).dropWhile (· ∈ delimiters) = first :: others :=
    List.dropWhile_cons_of_neg (by simpa using notDelimiter)
  rw [strtok, start]

theorem strtok_cons {delimiter : UInt8} (isDelimiter : delimiter ∈ delimiters)
    (nonempty : token ≠ []) (inside : ∀ byte ∈ token, byte ∉ delimiters) (rest : Bytes) :
    strtok delimiters (token ++ delimiter :: rest) = some (token, rest) := by
  have taken : (token ++ delimiter :: rest).takeWhile (· ∉ delimiters) = token := by
    rw [List.takeWhile_append_of_pos (by simpa using inside),
      List.takeWhile_cons_of_neg (by simpa using isDelimiter), List.append_nil]
  have left : (token ++ delimiter :: rest).dropWhile (· ∉ delimiters) = delimiter :: rest := by
    rw [List.dropWhile_append_of_pos (by simpa using inside),
      List.dropWhile_cons_of_neg (by simpa using isDelimiter)]
  obtain ⟨first, others, rfl⟩ := List.exists_cons_of_ne_nil nonempty
  have notDelimiter := inside first List.mem_cons_self
  rw [List.cons_append] at taken left ⊢
  rw [strtok_of_head notDelimiter, taken, left]
  rfl

theorem strtok_last (nonempty : token ≠ []) (inside : ∀ byte ∈ token, byte ∉ delimiters) :
    strtok delimiters token = some (token, []) := by
  have taken : token.takeWhile (· ∉ delimiters) = token := by
    simpa using inside
  have left : token.dropWhile (· ∉ delimiters) = [] := by
    simpa using inside
  obtain ⟨first, others, rfl⟩ := List.exists_cons_of_ne_nil nonempty
  rw [strtok_of_head (inside first List.mem_cons_self), taken, left]
  rfl

theorem strtok_three {delimiter : UInt8} {first second third : Bytes} {rest₁ rest₂ rest₃ : Bytes}
    (two : text.count delimiter = 2)
    (firstCall : strtok [delimiter] text = some (first, rest₁))
    (secondCall : strtok [delimiter] rest₁ = some (second, rest₂))
    (thirdCall : strtok [delimiter] rest₂ = some (third, rest₃)) :
    text = first ++ delimiter :: (second ++ delimiter :: third) := by
  have countToken : ∀ token : Bytes, (∀ byte ∈ token, byte ∉ [delimiter]) →
      token.count delimiter = 0 := by
    intro token inside
    exact List.count_eq_zero.mpr fun member => inside delimiter member (List.mem_singleton_self _)
  have skippedNil : ∀ skipped : Bytes, (∀ byte ∈ skipped, byte ∈ [delimiter]) →
      skipped.count delimiter = skipped.length := by
    intro skipped all
    exact List.count_eq_length.mpr fun byte member => (List.mem_singleton.mp (all byte member)).symm
  obtain ⟨skipped₁, all₁, _, inside₁, end₁ | ⟨delimiter₁, member₁, layout₁⟩⟩ :=
    strtok_layout firstCall
  · rw [end₁.2] at secondCall
    exact absurd secondCall (by simp [strtok])
  obtain ⟨skipped₂, all₂, _, inside₂, end₂ | ⟨delimiter₂, member₂, layout₂⟩⟩ :=
    strtok_layout secondCall
  · rw [end₂.2] at thirdCall
    exact absurd thirdCall (by simp [strtok])
  obtain rfl := List.mem_singleton.mp member₁
  obtain rfl := List.mem_singleton.mp member₂
  obtain ⟨skipped₃, all₃, _, inside₃, end₃ | ⟨delimiter₃, member₃, layout₃⟩⟩ :=
    strtok_layout thirdCall
  · rw [layout₁, layout₂, end₃.1] at two
    simp only [List.count_append, List.count_cons_self, countToken _ inside₁,
      countToken _ inside₂, countToken _ inside₃, skippedNil _ all₁, skippedNil _ all₂,
      skippedNil _ all₃] at two
    have none₁ : skipped₁ = [] := List.length_eq_zero_iff.mp (by omega)
    have none₂ : skipped₂ = [] := List.length_eq_zero_iff.mp (by omega)
    have none₃ : skipped₃ = [] := List.length_eq_zero_iff.mp (by omega)
    rw [layout₁, layout₂, end₃.1, none₁, none₂, none₃]
    rfl
  · obtain rfl := List.mem_singleton.mp member₃
    rw [layout₁, layout₂, layout₃] at two
    simp only [List.count_append, List.count_cons_self] at two
    omega

end Jdbx.Library
