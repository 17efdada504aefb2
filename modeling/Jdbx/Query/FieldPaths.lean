import Jdbx.Query.QueryLanguage
import Mathlib.Data.List.Basic

/-!
# Field paths

A field path is a sequence of tokens, each a step from one value to a part of it.
`query_extract_field` takes the steps one after the other, but looks a path without a dot up as
a name, so that an index in it is no step.
-/

namespace Jdbx

open Library

/-- A token of a field path: a name, indices in brackets, or both. -/
structure FieldToken where
  name : Bytes
  indices : List Bytes
  plain : ∀ byte ∈ name, byte ≠ 46 ∧ byte ≠ 91
  digits : ∀ index ∈ indices, index.all isdigit = true
  nonempty : indices = [] → name ≠ []

namespace FieldToken

def text (token : FieldToken) : Bytes :=
  token.name ++ token.indices.flatMap fun index => 91 :: (index ++ [93])

variable {δ : Type}

def element (index : Bytes) : JsonValue δ → Option (JsonValue δ)
  | .array items => if 0 ≤ (atoi index).toInt then items[(atoi index).toInt.toNat]? else none
  | _ => none

def step (current : JsonValue δ) (token : FieldToken) : Option (JsonValue δ) :=
  match token.indices with
  | [] => objectField current token.name
  | index :: _ =>
      (if token.name.isEmpty then some current else objectField current token.name).bind
        (element index)

end FieldToken

def pathText : List FieldToken → Bytes
  | [] => []
  | [token] => token.text
  | token :: other :: rest => token.text ++ 46 :: pathText (other :: rest)

def Steps (δ : Type) (path : List FieldToken) : Prop :=
  ∀ document : JsonValue δ,
    queryExtractField document (pathText path) = path.foldlM FieldToken.step document

/-- Extracting along a joined path is extracting along its parts, and their tokens are steps
wherever they stand. -/
structure ExtractsAlong (δ : Type) (p q : List FieldToken) : Prop where
  joined : ∀ document : JsonValue δ,
    queryExtractField document (pathText p ++ 46 :: pathText q) =
      (queryExtractField document (pathText p)).bind fun value =>
        queryExtractField value (pathText q)
  first : Steps δ p
  second : Steps δ q

section Tokens

variable {δ : Type} {token : FieldToken}

theorem isdigit_ne {byte other : UInt8} (digit : isdigit byte = true)
    (noDigit : isdigit other = false) : byte ≠ other := by
  rintro rfl
  rw [noDigit] at digit
  cases digit

theorem FieldToken.text_ne_nil (token : FieldToken) : token.text ≠ [] := by
  intro empty
  obtain ⟨noName, noIndices⟩ := List.append_eq_nil_iff.mp empty
  refine token.nonempty ?_ noName
  cases indices : token.indices with
  | nil => rfl
  | cons index rest => simp [indices] at noIndices

theorem FieldToken.not_mem_text (token : FieldToken) : ∀ byte ∈ token.text, byte ∉ [46] := by
  intro byte member
  rw [List.mem_singleton]
  rcases List.mem_append.mp member with inName | inIndices
  · exact (token.plain byte inName).1
  · obtain ⟨index, isIndex, inside⟩ := List.mem_flatMap.mp inIndices
    rw [List.mem_cons, List.mem_append, List.mem_singleton] at inside
    rcases inside with rfl | inDigits | rfl
    · decide
    · exact isdigit_ne (List.all_eq_true.mp (token.digits index isIndex) byte inDigits) rfl
    · decide

theorem takeWhile_name (others : Bytes) (token : FieldToken) :
    (token.name ++ 91 :: others).takeWhile (· ≠ 91) = token.name := by
  rw [List.takeWhile_append_of_pos (by simpa using fun byte member => (token.plain byte member).2),
    List.takeWhile_cons_of_neg (by simp), List.append_nil]

theorem extractToken_text (current : JsonValue δ) (token : FieldToken) :
    extractToken current token.text = token.step current := by
  unfold FieldToken.text FieldToken.step
  cases indices : token.indices with
  | nil =>
      have whole : token.name.takeWhile (· ≠ 91) = token.name :=
        List.takeWhile_eq_self_iff.mpr
          (by simpa using fun byte member => (token.plain byte member).2)
      rw [List.flatMap_nil, List.append_nil, extractToken]
      simp only [whole, if_true]
  | cons index rest =>
      have isDigits := token.digits index (by rw [indices]; exact List.mem_cons_self)
      have noBracket : ∀ byte ∈ index, (decide (byte ≠ 93)) = true := fun byte member =>
        decide_eq_true (isdigit_ne (List.all_eq_true.mp isDigits byte member) rfl)
      obtain ⟨behind, layout⟩ : ∃ behind, (index :: rest).flatMap
          (fun index => 91 :: (index ++ [93])) = 91 :: (index ++ 93 :: behind) :=
        ⟨rest.flatMap fun index => 91 :: (index ++ [93]), by simp⟩
      have indexStr : (index ++ 93 :: behind).takeWhile (· ≠ 93) = index := by
        rw [List.takeWhile_append_of_pos noBracket, List.takeWhile_cons_of_neg (by simp),
          List.append_nil]
      have after : (token.name ++ 91 :: (index ++ 93 :: behind)).drop (token.name.length + 1) =
          index ++ 93 :: behind := by
        simp [List.drop_append]
      rw [layout, extractToken]
      simp only [takeWhile_name, after, indexStr]
      rw [if_neg (by simp), if_neg (by simp)]
      cases (if token.name.isEmpty then some current else objectField current token.name) with
      | none => rfl
      | some value => cases value <;> rfl

end Tokens

section Paths

variable {δ : Type} {p q : List FieldToken}

theorem extractTokens_pathText (path : List FieldToken) (rounds : Nat)
    (enough : path.length ≤ rounds) (document : JsonValue δ) :
    extractTokens rounds (pathText path) document = path.foldlM FieldToken.step document := by
  induction path generalizing rounds document with
  | nil =>
      cases rounds with
      | zero => rfl
      | succ rounds => rfl
  | cons token rest ih =>
      obtain ⟨rounds, rfl⟩ := Nat.exists_eq_add_of_lt (Nat.lt_of_lt_of_le (Nat.succ_pos _) enough)
      rw [Nat.zero_add, List.length_cons] at *
      have called : strtok [46] (pathText (token :: rest)) = some (token.text, pathText rest) := by
        cases rest with
        | nil => exact strtok_last token.text_ne_nil token.not_mem_text
        | cons other rest => exact strtok_cons (by decide) token.text_ne_nil token.not_mem_text _
      rw [extractTokens, called, List.foldlM_cons]
      simp only [extractToken_text]
      cases token.step document with
      | none => rfl
      | some next => exact ih rounds (by omega) next

theorem length_le_pathText (path : List FieldToken) : path.length ≤ (pathText path).length := by
  induction path with
  | nil => exact Nat.le_refl 0
  | cons token rest ih =>
      have some := List.length_pos_iff.mpr token.text_ne_nil
      cases rest with
      | nil => exact some
      | cons other rest =>
          rw [pathText, List.length_append]
          simp only [List.length_cons] at ih ⊢
          omega

theorem pathText_append (pSome : p ≠ []) (qSome : q ≠ []) :
    pathText (p ++ q) = pathText p ++ 46 :: pathText q := by
  induction p with
  | nil => exact absurd rfl pSome
  | cons token rest ih =>
      cases rest with
      | nil =>
          obtain ⟨other, others, rfl⟩ := List.exists_cons_of_ne_nil qSome
          rfl
      | cons other rest =>
          have behind := ih (List.cons_ne_nil _ _)
          rw [List.cons_append] at behind
          rw [List.cons_append, List.cons_append, pathText, behind, pathText, List.append_assoc,
            List.cons_append]

theorem steps_of_dot (path : List FieldToken) (dot : (pathText path).contains 46 = true) :
    Steps δ path := by
  intro document
  rw [queryExtractField, if_pos dot]
  exact extractTokens_pathText path _ (Nat.le_succ_of_le (length_le_pathText path)) document

theorem steps_append (pSome : p ≠ []) (qSome : q ≠ []) : Steps δ (p ++ q) := by
  refine steps_of_dot _ ?_
  rw [pathText_append pSome qSome]
  simp

theorem step_textDocument {token : FieldToken} (indexed : token.indices ≠ []) :
    token.step (.object [(token.text, .null)] : JsonValue δ) = none := by
  unfold FieldToken.step
  cases indices : token.indices with
  | nil => exact absurd indices indexed
  | cons index rest =>
      have longer : token.text ≠ token.name := by
        intro same
        have sameLength := congrArg List.length same
        simp [FieldToken.text, indices] at sameLength
      have noName :
          objectField (.object [(token.text, .null)] : JsonValue δ) token.name = none := by
        simp [objectField, jsonObjectGet, getEntry, longer]
      by_cases empty : token.name.isEmpty
      · simp [empty, FieldToken.element]
      · simp [empty, noName]

def StepsAlone : List FieldToken → Prop
  | [token] => token.indices = []
  | _ => True

theorem steps_iff {path : List FieldToken} (nonempty : path ≠ []) :
    Steps δ path ↔ StepsAlone path := by
  match path with
  | [] => exact absurd rfl nonempty
  | token :: other :: rest =>
      exact iff_of_true (steps_append (p := [token]) (List.cons_ne_nil _ _) (List.cons_ne_nil _ _))
        trivial
  | [token] =>
      have noDot : ¬ (pathText [token]).contains 46 = true := by
        intro dot
        exact token.not_mem_text 46 (List.contains_iff_mem.mp dot) (List.mem_singleton.mpr rfl)
      have literal : ∀ document : JsonValue δ, queryExtractField document (pathText [token]) =
          objectField document token.text := fun document => by
        rw [queryExtractField, if_neg noDot, pathText]
      constructor
      · intro steps
        by_contra indexed
        -- the document has the text of the token as a key and nothing else
        have found := steps (.object [(token.text, .null)])
        have own : objectField (.object [(token.text, .null)] : JsonValue δ) token.text =
            some .null := by
          simp [objectField, jsonObjectGet, getEntry]
        rw [literal, own, List.foldlM_cons, step_textDocument indexed] at found
        cases found
      · intro alone document
        have isName : token.text = token.name := by
          rw [FieldToken.text, show token.indices = [] from alone, List.flatMap_nil,
            List.append_nil]
        rw [literal, isName]
        simp only [List.foldlM_cons, List.foldlM_nil, bind_pure, FieldToken.step,
          show token.indices = [] from alone]

/-- Paths compose just where neither is a single token with an index. -/
theorem extractsAlong_iff (pSome : p ≠ []) (qSome : q ≠ []) :
    ExtractsAlong δ p q ↔ StepsAlone p ∧ StepsAlone q := by
  rw [← steps_iff (δ := δ) pSome, ← steps_iff (δ := δ) qSome]
  refine ⟨fun along => ⟨along.first, along.second⟩, fun steps => ⟨fun document => ?_,
    steps.1, steps.2⟩⟩
  have inner : (fun value => queryExtractField value (pathText q)) =
      fun value : JsonValue δ => q.foldlM FieldToken.step value := funext steps.2
  rw [← pathText_append pSome qSome, steps_append pSome qSome, List.foldlM_append, steps.1, inner]
  rfl

end Paths

/-- The token `a`, `b` or another name of one letter. -/
def nameToken (letter : UInt8) (noDot : letter ≠ 46) (noBracket : letter ≠ 91) : FieldToken where
  name := [letter]
  indices := []
  plain := fun _ member => List.mem_singleton.mp member ▸ ⟨noDot, noBracket⟩
  digits := nofun
  nonempty := fun _ => List.cons_ne_nil _ _

/-- The token `a[0]`. -/
def firstToken : FieldToken where
  name := ascii "a"
  indices := [ascii "0"]
  plain := fun _ member => List.mem_singleton.mp member ▸ ⟨by decide, by decide⟩
  digits := fun _ member => List.mem_singleton.mp member ▸ rfl
  nonempty := nofun

theorem extractsAlong_nested :
    ExtractsAlong Rat [nameToken 98 (by decide) (by decide)]
      [firstToken, nameToken 99 (by decide) (by decide)] :=
  (extractsAlong_iff (List.cons_ne_nil _ _) (List.cons_ne_nil _ _)).mpr ⟨rfl, trivial⟩

/-- In the path `a[0].b` the index is a step, and in `a[0]` it is not. -/
theorem not_extractsAlong_firstToken :
    ¬ ExtractsAlong Rat [firstToken] [nameToken 98 (by decide) (by decide)] := by
  intro along
  have joined := along.joined
    (.object [(ascii "a", .array [.object [(ascii "b", .integer 1)]])])
  exact absurd (congrArg Option.isSome joined) (by decide +kernel)

end Jdbx
