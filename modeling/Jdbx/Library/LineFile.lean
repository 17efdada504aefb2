import Jdbx.Library.CString

/-!
# Reading a file line by line

`fgets` with a buffer of a fixed size reads up to and including the next line
feed, or as much as fits.  So a file is read in pieces, and a file made of such
pieces is read back piece by piece: a line that fits is one of them.
-/

namespace Jdbx.Library

/-- `fgets(line, size, file)`: what it stores, and what is left to read. -/
def fgets (size : Nat) (file : Bytes) : Option (Bytes × Bytes) :=
  if file = [] then none
  else
    let window := file.take (size - 1)
    let before := window.takeWhile (· ≠ 10)
    let line := before ++ (window.drop before.length).take 1
    some (line, file.drop line.length)

/-- The loop `while (fgets(line, size, file))`.  Each turn reads a byte at
least, so that the length of the file is enough fuel. -/
def readLinesLoop (size : Nat) : Nat → Bytes → List Bytes
  | 0, _ => []
  | fuel + 1, file =>
      match fgets size file with
      | none => []
      | some (line, rest) => line :: readLinesLoop size fuel rest

def readLines (size : Nat) (file : Bytes) : List Bytes :=
  readLinesLoop size file.length file

/-- A line that ends in its only line feed and fits into the buffer. -/
structure FitsLine (size : Nat) (line : Bytes) : Prop where
  ends : ∃ text, line = text ++ [10] ∧ 10 ∉ text
  short : line.length < size

/-- What `fgets` reads at once: a line that fits, or a full buffer inside a line. -/
def Piece (size : Nat) (piece : Bytes) : Prop :=
  FitsLine size piece ∨ (10 ∉ piece ∧ piece.length + 1 = size ∧ piece ≠ [])

variable {size : Nat} {file : Bytes}

theorem Piece.length_pos {piece : Bytes} (isPiece : Piece size piece) :
    0 < piece.length := by
  rcases isPiece with fits | ⟨_, _, nonempty⟩
  · obtain ⟨text, rfl, -⟩ := fits.ends
    simp
  · exact List.length_pos_iff.mpr nonempty

theorem fgets_of_fitsLine {line : Bytes} (fits : FitsLine size line) (rest : Bytes) :
    fgets size (line ++ rest) = some (line, rest) := by
  obtain ⟨⟨text, rfl, plain⟩, short⟩ := fits
  rw [List.length_append, List.length_singleton] at short
  obtain ⟨room, size_eq⟩ : ∃ room, size - 1 = text.length + (room + 1) :=
    ⟨size - 2 - text.length, by omega⟩
  have window : (text ++ [10] ++ rest).take (size - 1) = text ++ 10 :: rest.take room := by
    rw [size_eq, List.append_assoc, List.take_length_add_append, List.singleton_append,
      List.take_succ_cons]
  have before : (text ++ 10 :: rest.take room).takeWhile (· ≠ 10) = text := by
    have inside : ∀ byte ∈ text, decide (byte ≠ 10) = true := by
      intro byte member
      simpa using ne_of_mem_of_not_mem member plain
    rw [List.takeWhile_append_of_pos inside, List.takeWhile_cons_of_neg (by simp),
      List.append_nil]
  have notEmpty : text ++ [10] ++ rest ≠ [] := by
    simp
  rw [fgets, if_neg notEmpty]
  simp only [window, before, List.drop_left, List.take_succ_cons, List.take_zero]

theorem takeWhile_ne_of_not_mem {text : Bytes} (plain : 10 ∉ text) :
    text.takeWhile (· ≠ 10) = text := by
  rw [List.takeWhile_eq_self_iff]
  intro byte member
  simpa using ne_of_mem_of_not_mem member plain

theorem fgets_append {piece : Bytes} (isPiece : Piece size piece) (rest : Bytes) :
    fgets size (piece ++ rest) = some (piece, rest) := by
  rcases isPiece with fits | ⟨plain, full, nonempty⟩
  · exact fgets_of_fitsLine fits rest
  · have window : (piece ++ rest).take (size - 1) = piece := by
      rw [← full, Nat.add_sub_cancel, List.take_left]
    have notEmpty : piece ++ rest ≠ [] := List.append_ne_nil_of_left_ne_nil nonempty rest
    rw [fgets, if_neg notEmpty]
    simp only [window, takeWhile_ne_of_not_mem plain, List.drop_length, List.take_nil,
      List.append_nil, List.drop_left]

theorem readLinesLoop_flatten :
    ∀ {pieces : List Bytes} {fuel : Nat}, (∀ piece ∈ pieces, Piece size piece) →
      pieces.flatten.length ≤ fuel → readLinesLoop size fuel pieces.flatten = pieces := by
  intro pieces
  induction pieces with
  | nil =>
      intro fuel _ _
      cases fuel <;> simp [readLinesLoop, fgets]
  | cons piece pieces ih =>
      intro fuel arePieces enough
      have first : Piece size piece := arePieces piece List.mem_cons_self
      have positive : 0 < piece.length := first.length_pos
      rw [List.flatten_cons, List.length_append] at enough
      cases fuel with
      | zero => omega
      | succ fuel =>
          have others : ∀ other ∈ pieces, Piece size other :=
            fun other member => arePieces other (List.mem_cons_of_mem piece member)
          rw [List.flatten_cons, readLinesLoop, fgets_append first]
          simp only
          rw [ih others (by omega)]

theorem readLines_pieces {pieces : List Bytes} (arePieces : ∀ piece ∈ pieces, Piece size piece) :
    readLines size pieces.flatten = pieces :=
  readLinesLoop_flatten arePieces (Nat.le_refl _)

theorem readLines_flatten {lines : List Bytes} (fits : ∀ line ∈ lines, FitsLine size line) :
    readLines size lines.flatten = lines :=
  readLines_pieces fun line member => Or.inl (fits line member)

def EndsLine (file : Bytes) : Prop :=
  file = [] ∨ file.getLast? = some 10

theorem EndsLine.rest {piece rest : Bytes} (ends : EndsLine (piece ++ rest)) : EndsLine rest := by
  rcases List.eq_nil_or_concat rest with rfl | ⟨initial, last, rfl⟩
  · exact Or.inl rfl
  · rcases ends with empty | isLast
    · simp at empty
    · rw [List.getLast?_append] at isLast
      exact Or.inr (by simpa using isLast)

theorem endsLine_flatten {lines : List Bytes} (ends : ∀ line ∈ lines, ∃ text, line = text ++ [10]) :
    EndsLine lines.flatten := by
  rcases List.eq_nil_or_concat lines with rfl | ⟨initial, last, rfl⟩
  · exact Or.inl rfl
  · obtain ⟨text, rfl⟩ := ends last (by simp)
    exact Or.inr (by simp)

theorem fgets_spec (large : 1 < size) (notEmpty : file ≠ []) (ends : EndsLine file) :
    ∃ piece rest, fgets size file = some (piece, rest) ∧ file = piece ++ rest ∧
      Piece size piece := by
  have last : file.getLast? = some 10 := ends.resolve_left notEmpty
  have split : file.take (size - 1) ++ file.drop (size - 1) = file := List.take_append_drop _ _
  by_cases inWindow : 10 ∈ file.take (size - 1)
  · obtain ⟨text, tail, window, plain⟩ := List.eq_append_cons_of_mem inWindow
    have bound : (file.take (size - 1)).length ≤ size - 1 := List.length_take_le _ _
    rw [window] at split bound
    rw [List.length_append, List.length_cons] at bound
    have fits : FitsLine size (text ++ [10]) := by
      refine ⟨⟨text, rfl, plain⟩, ?_⟩
      rw [List.length_append, List.length_singleton]
      omega
    have whole : file = text ++ [10] ++ (tail ++ file.drop (size - 1)) := by
      simpa using split.symm
    refine ⟨text ++ [10], tail ++ file.drop (size - 1), ?_, whole, Or.inl fits⟩
    nth_rewrite 1 [whole]
    exact fgets_of_fitsLine fits _
  · have long : size - 1 ≤ file.length := by
      by_contra short
      apply inWindow
      rw [List.take_of_length_le (by omega)]
      exact List.mem_of_getLast? last
    have full : (file.take (size - 1)).length + 1 = size := by
      rw [List.length_take]
      omega
    have isPiece : Piece size (file.take (size - 1)) := by
      refine Or.inr ⟨inWindow, full, ?_⟩
      intro empty
      rw [empty, List.length_nil] at full
      omega
    refine ⟨file.take (size - 1), file.drop (size - 1), ?_, split.symm, isPiece⟩
    nth_rewrite 1 [← split]
    exact fgets_append isPiece _

theorem readLinesLoop_spec (large : 1 < size) :
    ∀ {fuel : Nat} {file : Bytes}, EndsLine file → file.length ≤ fuel →
      (∀ piece ∈ readLinesLoop size fuel file, Piece size piece) ∧
        (readLinesLoop size fuel file).flatten = file := by
  intro fuel
  induction fuel with
  | zero =>
      intro file _ enough
      have empty : file = [] := List.length_eq_zero_iff.mp (Nat.le_zero.mp enough)
      simp [readLinesLoop, empty]
  | succ fuel ih =>
      intro file ends enough
      by_cases empty : file = []
      · simp [readLinesLoop, fgets, empty]
      · obtain ⟨piece, rest, read, split, isPiece⟩ := fgets_spec large empty ends
        have positive : 0 < piece.length := isPiece.length_pos
        have shorter : rest.length ≤ fuel := by
          rw [split, List.length_append] at enough
          omega
        have restEnds : EndsLine rest := (split ▸ ends : EndsLine (piece ++ rest)).rest
        obtain ⟨pieces, whole⟩ := ih restEnds shorter
        simp only [readLinesLoop, read]
        refine ⟨List.forall_mem_cons.mpr ⟨isPiece, pieces⟩, ?_⟩
        rw [List.flatten_cons, whole, split]

theorem pieces_readLines (large : 1 < size) (ends : EndsLine file) :
    ∀ piece ∈ readLines size file, Piece size piece :=
  (readLinesLoop_spec large ends (Nat.le_refl _)).1

theorem flatten_readLines (large : 1 < size) (ends : EndsLine file) :
    (readLines size file).flatten = file :=
  (readLinesLoop_spec large ends (Nat.le_refl _)).2

theorem nulFree_readLines (large : 1 < size) (ends : EndsLine file) (nulFree : NulFree file) :
    ∀ line ∈ readLines size file, NulFree line := by
  intro line member nul
  rw [← flatten_readLines large ends] at nulFree
  exact nulFree (List.mem_flatten_of_mem member nul)

end Jdbx.Library
