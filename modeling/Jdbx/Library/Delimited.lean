import Mathlib.Data.List.Basic

/-!
# Lists of items between a separator and a closing token

The loop that reads `item sep item sep ... item close`.  The reader of one item
is a parameter, and a `skip` may drop filler in front of every token.  The two
laws are that any fuel above the length of the text gives the same answer, and
that the loop reads back what `List.intercalate` wrote.
-/

namespace Jdbx.Library

variable {τ α β : Type} [DecidableEq τ]

def parseDelimited (item : List τ → Option (α × List τ)) (skip : List τ → List τ)
    (separator close : τ) : Nat → List τ → Option (List α × List τ)
  | 0, _ => none
  | fuel + 1, text =>
    match item (skip text) with
    | none => none
    | some (value, afterItem) =>
      match skip afterItem with
      | [] => none
      | token :: rest =>
        if token = separator then
          match parseDelimited item skip separator close fuel rest with
          | none => none
          | some (values, afterClose) => some (value :: values, afterClose)
        else if token = close then some ([value], rest)
        else none

attribute [grind =] parseDelimited

section Fuel

variable {item : List τ → Option (α × List τ)} {skip : List τ → List τ}
  {separator close : τ}

/-- Both the item reader and the skip leave no more text than they got. -/
structure Consuming (item : List τ → Option (α × List τ))
    (skip : List τ → List τ) : Prop where
  item_length :
    ∀ text value rest, item text = some (value, rest) → rest.length ≤ text.length
  skip_length : ∀ text, (skip text).length ≤ text.length

theorem parseDelimited_length (consuming : Consuming item skip) :
    ∀ (fuel : Nat) (text : List τ) (values : List α) (rest : List τ),
      parseDelimited item skip separator close fuel text = some (values, rest) →
        rest.length < text.length := by
  intro fuel
  induction fuel with
  | zero =>
    intro text values rest result
    simp [parseDelimited] at result
  | succ fuel ih =>
    intro text values rest result
    rw [parseDelimited] at result
    split at result
    · exact absurd result (by simp)
    · rename_i value afterItem itemResult
      have itemShorter := consuming.item_length _ _ _ itemResult
      have skipShorter := consuming.skip_length text
      have afterShorter := consuming.skip_length afterItem
      split at result
      · exact absurd result (by simp)
      · rename_i token after afterEqual
        rw [afterEqual, List.length_cons] at afterShorter
        split at result
        · split at result
          · exact absurd result (by simp)
          · rename_i values' afterClose loopResult
            have loopShorter := ih _ _ _ loopResult
            simp only [Option.some.injEq, Prod.mk.injEq] at result
            rw [← result.2]
            omega
        · split at result
          · simp only [Option.some.injEq, Prod.mk.injEq] at result
            rw [← result.2]
            omega
          · exact absurd result (by simp)

theorem parseDelimited_fuel (consuming : Consuming item skip) :
    ∀ (fuel other : Nat) (text : List τ),
      text.length < fuel → text.length < other →
        parseDelimited item skip separator close fuel text =
          parseDelimited item skip separator close other text := by
  intro fuel
  induction fuel with
  | zero =>
    intro other text short
    exact absurd short (Nat.not_lt_zero _)
  | succ fuel ih =>
    intro other text short otherShort
    obtain ⟨other, rfl⟩ := Nat.exists_eq_succ_of_ne_zero (Nat.ne_zero_of_lt otherShort)
    rw [parseDelimited, parseDelimited]
    cases itemResult : item (skip text) with
    | none => rfl
    | some result =>
      obtain ⟨value, afterItem⟩ := result
      have itemShorter := consuming.item_length _ _ _ itemResult
      have skipShorter := consuming.skip_length text
      have afterShorter := consuming.skip_length afterItem
      cases afterEqual : skip afterItem with
      | nil => simp only [afterEqual]
      | cons token rest =>
        rw [afterEqual, List.length_cons] at afterShorter
        have loops :=
          ih other rest (by omega) (by omega)
        simp only [afterEqual, loops]

theorem parseDelimited_forall {good : α → Prop}
    (reads : ∀ text value rest, item text = some (value, rest) → good value) :
    ∀ (fuel : Nat) (text : List τ) (values : List α) (rest : List τ),
      parseDelimited item skip separator close fuel text = some (values, rest) →
        ∀ value ∈ values, good value := by
  intro fuel
  induction fuel with
  | zero =>
    intro text values rest parsed
    exact absurd parsed (by simp [parseDelimited])
  | succ fuel ih =>
    intro text values rest parsed
    rw [parseDelimited] at parsed
    split at parsed
    · exact absurd parsed (by simp)
    · rename_i first afterItem firstRead
      have firstGood : good first := reads _ _ _ firstRead
      split at parsed
      · exact absurd parsed (by simp)
      · split_ifs at parsed
        · split at parsed
          · exact absurd parsed (by simp)
          · rename_i others afterClose loop
            cases parsed
            intro value member
            rcases List.mem_cons.mp member with rfl | member
            · exact firstGood
            · exact ih _ _ _ loop value member
        · cases parsed
          intro value member
          obtain rfl := List.mem_singleton.mp member
          exact firstGood

theorem parseDelimited_stuck {text : List τ}
    (stuck : ∀ read left, item (skip text) = some (read, left) →
      ∀ token ∈ (skip left).head?, token ≠ separator ∧ token ≠ close) (fuel : Nat) :
    parseDelimited item skip separator close (fuel + 1) text = none := by
  rw [parseDelimited]
  cases read : item (skip text) with
  | none => rfl
  | some result =>
    cases left : skip result.2 with
    | nil => simp only [left]
    | cons token rest =>
      obtain ⟨notSeparator, notClose⟩ :=
        stuck result.1 result.2 read token (by rw [left]; rfl)
      simp only [left, notSeparator, notClose, ↓reduceIte]

end Fuel

omit [DecidableEq τ] in
theorem length_le_intercalate (separator : τ) :
    ∀ texts : List (List τ), texts.length ≤ ([separator].intercalate texts).length + 1
  | [] => Nat.zero_le _
  | [text] => by
    simp
  | text :: next :: texts => by
    have tailLength := length_le_intercalate separator (next :: texts)
    rw [List.intercalate_cons_cons, List.length_append, List.length_append,
      List.length_singleton, List.length_cons]
    omega

omit [DecidableEq τ] in
theorem length_le_intercalate_of_mem (separator : τ) {text : List τ} :
    ∀ {texts : List (List τ)}, text ∈ texts →
      text.length ≤ ([separator].intercalate texts).length
  | [], member => absurd member List.not_mem_nil
  | [only], member => by
    obtain rfl := List.mem_singleton.mp member
    simp
  | first :: next :: texts, member => by
    rw [List.intercalate_cons_cons, List.length_append, List.length_append]
    rcases List.mem_cons.mp member with rfl | tailMember
    · omega
    · have tailLength := length_le_intercalate_of_mem separator tailMember
      omega

omit [DecidableEq τ] in
theorem intercalate_cons_close (separator close : τ) (print : β → List τ) (value next : β)
    (others : List β) (rest : List τ) :
    [separator].intercalate ((value :: next :: others).map print) ++ close :: rest =
      print value ++ separator ::
        ([separator].intercalate ((next :: others).map print) ++ close :: rest) := by
  simp

section PrintedLists

variable (item : List τ → Option (α × List τ)) (skip : List τ → List τ) (separator close : τ)
  (print : β → List τ) (image : β → α) (stops : List τ → Prop)
  (different : close ≠ separator)
  (stopsSeparator : ∀ rest, stops (separator :: rest))
  (stopsClose : ∀ rest, stops (close :: rest))
  (skipSeparator : ∀ rest, skip (separator :: rest) = separator :: rest)
  (skipClose : ∀ rest, skip (close :: rest) = close :: rest)
  (rest : List τ)

include different stopsSeparator stopsClose skipSeparator skipClose

theorem parseDelimited_intercalate :
    ∀ (values : List β) (fuel : Nat),
      values ≠ [] → values.length ≤ fuel →
      (∀ value ∈ values, ∀ after, stops after →
        item (skip (print value ++ after)) = some (image value, after)) →
        parseDelimited item skip separator close fuel
            ([separator].intercalate (values.map print) ++ close :: rest) =
          some (values.map image, rest) := by
  intro values
  induction values with
  | nil =>
    intro fuel nonempty
    exact absurd rfl nonempty
  | cons value values ih =>
    intro fuel _ enough inverse
    obtain ⟨fuel, rfl⟩ := Nat.exists_eq_succ_of_ne_zero (Nat.ne_zero_of_lt enough)
    have headInverse := inverse value List.mem_cons_self
    rw [parseDelimited]
    cases values with
    | nil =>
      simp only [List.map_cons, List.map_nil, List.intercalate_singleton]
      rw [headInverse _ (stopsClose rest)]
      simp only [skipClose, different, ↓reduceIte]
    | cons next others =>
      have tailInverse :=
        ih fuel (List.cons_ne_nil next others)
          (Nat.le_of_succ_le_succ enough)
          fun other member => inverse other (List.mem_cons_of_mem value member)
      rw [intercalate_cons_close, headInverse _ (stopsSeparator _)]
      simp only [skipSeparator, ↓reduceIte, tailInverse]
      rfl

/-- Where every item is read back, or not read, or followed by neither token, the list is
read back or not read. -/
theorem parseDelimited_intercalate_or_none :
    ∀ (values : List β) (fuel : Nat),
      values ≠ [] → values.length ≤ fuel →
      (∀ value ∈ values, ∀ after, stops after →
        item (skip (print value ++ after)) = some (image value, after) ∨
          ∀ read left, item (skip (print value ++ after)) = some (read, left) →
            ∀ token ∈ (skip left).head?, token ≠ separator ∧ token ≠ close) →
        parseDelimited item skip separator close fuel
            ([separator].intercalate (values.map print) ++ close :: rest) =
              some (values.map image, rest) ∨
          parseDelimited item skip separator close fuel
              ([separator].intercalate (values.map print) ++ close :: rest) = none := by
  intro values
  induction values with
  | nil =>
    intro fuel nonempty
    exact absurd rfl nonempty
  | cons value values ih =>
    intro fuel _ enough reads
    obtain ⟨fuel, rfl⟩ := Nat.exists_eq_succ_of_ne_zero (Nat.ne_zero_of_lt enough)
    have headReads := reads value List.mem_cons_self
    cases values with
    | nil =>
      simp only [List.map_cons, List.map_nil, List.intercalate_singleton]
      rcases headReads _ (stopsClose rest) with read | stuck
      · left
        rw [parseDelimited, read]
        simp only [skipClose, different, ↓reduceIte]
      · exact Or.inr (parseDelimited_stuck stuck fuel)
    | cons next others =>
      have tailReads :=
        ih fuel (List.cons_ne_nil next others)
          (Nat.le_of_succ_le_succ enough)
          fun other member => reads other (List.mem_cons_of_mem value member)
      rw [intercalate_cons_close]
      rcases headReads _ (stopsSeparator _) with read | stuck
      · rw [parseDelimited, read]
        rcases tailReads with tailRead | tailFailed
        · left
          simp only [skipSeparator, ↓reduceIte, tailRead]
          rfl
        · right
          simp only [skipSeparator, ↓reduceIte, tailFailed]
      · exact Or.inr (parseDelimited_stuck stuck fuel)

end PrintedLists

end Jdbx.Library
