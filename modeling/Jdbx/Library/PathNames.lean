import Jdbx.Library.CString

/-!
# Path names

A directory is the list of the names on the way to it from the root directory.  A path is
resolved by its text: an empty component and `.` stay where they are, `..` goes up, and any other
component is a name and goes down.
-/

namespace Jdbx.Library

def IsName (component : Bytes) : Prop :=
  component ∉ ([[], [46], [46, 46]] : List Bytes)

instance (component : Bytes) : Decidable (IsName component) :=
  inferInstanceAs (Decidable (component ∉ _))

def enterComponent (directory : List Bytes) (component : Bytes) : List Bytes :=
  if IsName component then directory ++ [component]
  else if component = [46, 46] then directory.dropLast
  else directory

def walkComponents (directory : List Bytes) (components : List Bytes) : List Bytes :=
  components.foldl enterComponent directory

def resolvePath (workingDirectory : List Bytes) (path : Bytes) : List Bytes :=
  walkComponents (if path.head? = some 47 then [] else workingDirectory) (path.splitOn 47)

/-- How deep the components lead below the directory they start in, if they never leave it on
the way. -/
def depthBelow : Nat → List Bytes → Option Nat
  | depth, [] => some depth
  | depth, component :: rest =>
      if IsName component then depthBelow (depth + 1) rest
      else if component = [46, 46] then
        if depth = 0 then none else depthBelow (depth - 1) rest
      else depthBelow depth rest

theorem walkComponents_cons (directory : List Bytes) (component : Bytes) (rest : List Bytes) :
    walkComponents directory (component :: rest) =
      walkComponents (enterComponent directory component) rest :=
  rfl

theorem walkComponents_append (directory front back : List Bytes) :
    walkComponents directory (front ++ back) =
      walkComponents (walkComponents directory front) back :=
  List.foldl_append

theorem enterComponent_name {component : Bytes} (isName : IsName component)
    (directory : List Bytes) :
    enterComponent directory component = directory ++ [component] :=
  if_pos isName

theorem resolvePath_append_cons {front : Bytes} (nonempty : front ≠ [])
    (workingDirectory : List Bytes) (back : Bytes) :
    resolvePath workingDirectory (front ++ 47 :: back) =
      walkComponents (resolvePath workingDirectory front) (back.splitOn 47) := by
  obtain ⟨first, others, rfl⟩ := List.exists_cons_of_ne_nil nonempty
  rw [resolvePath, resolvePath, List.splitOn_append_cons_self, walkComponents_append]
  rfl

theorem splitOn_cases (path : Bytes) :
    (47 ∉ path ∧ path.splitOn 47 = [path]) ∨
      ∃ first behind, path = first ++ 47 :: behind ∧ 47 ∉ first ∧
        path.splitOn 47 = first :: behind.splitOn 47 := by
  by_cases slash : 47 ∈ path
  · obtain ⟨first, behind, rfl, noSlash⟩ := List.eq_append_cons_of_mem slash
    exact Or.inr ⟨first, behind, rfl, noSlash, List.splitOn_append_cons_self_of_not_mem noSlash _⟩
  · exact Or.inl ⟨slash, List.splitOn_eq_singleton slash⟩

/-- The path ends in a name, not in a slash or in `.` or `..`. -/
def EndsInName (components : List Bytes) : Prop :=
  ∃ last ∈ components.getLast?, IsName last

instance (components : List Bytes) : Decidable (EndsInName components) :=
  inferInstanceAs (Decidable (∃ last ∈ components.getLast?, IsName last))

theorem endsInName_append {front back : List Bytes} (nonempty : back ≠ []) :
    EndsInName (front ++ back) ↔ EndsInName back := by
  rw [EndsInName, EndsInName, List.getLast?_append, List.getLast?_eq_some_getLast nonempty,
    Option.some_or]

variable {components : List Bytes}

theorem walkComponents_of_depthBelow {depth last : Nat}
    (stays : depthBelow depth components = some last) (directory : List Bytes)
    {below : List Bytes} (length : below.length = depth) :
    ∃ names : List Bytes, names.length = last ∧
      walkComponents (directory ++ below) components = directory ++ names := by
  induction components generalizing depth below with
  | nil => exact ⟨below, length.trans (Option.some.inj stays), rfl⟩
  | cons component rest ih =>
      rw [walkComponents_cons, enterComponent]
      rw [depthBelow] at stays
      split_ifs at stays ⊢ with isName isParent atDirectory
      · rw [List.append_assoc]
        exact ih stays (by simp [length])
      · have nonempty : below ≠ [] := fun empty => atDirectory (by rw [← length, empty]; rfl)
        rw [List.dropLast_append_of_ne_nil nonempty]
        exact ih stays (by simp [length])
      · exact ih stays length

theorem walkComponents_of_leaves {depth : Nat} (leaves : depthBelow depth components = none) :
    ∃ rest, ∀ (above : List Bytes) (name : Bytes) (below : List Bytes), below.length = depth →
      walkComponents (above ++ name :: below) components = walkComponents above rest := by
  induction components generalizing depth with
  | nil => cases leaves
  | cons component components ih =>
      rw [depthBelow] at leaves
      split_ifs at leaves with isName isParent atDirectory
      · obtain ⟨rest, leads⟩ := ih leaves
        refine ⟨rest, fun above name below length => ?_⟩
        rw [walkComponents_cons, enterComponent_name isName, List.append_assoc, List.cons_append]
        exact leads above name (below ++ [component]) (by simp [length])
      · refine ⟨components, fun above name below length => ?_⟩
        rw [List.eq_nil_of_length_eq_zero (length.trans atDirectory), walkComponents_cons,
          enterComponent, if_neg isName, if_pos isParent, List.dropLast_concat]
      · obtain ⟨rest, leads⟩ := ih leaves
        refine ⟨rest, fun above name below length => ?_⟩
        have nonempty : below ≠ [] := fun empty => atDirectory (by rw [← length, empty]; rfl)
        rw [walkComponents_cons, enterComponent, if_neg isName, if_pos isParent,
          List.dropLast_append_of_ne_nil (List.cons_ne_nil name below),
          List.dropLast_cons_of_ne_nil nonempty]
        exact leads above name below.dropLast (by simp [length])
      · obtain ⟨rest, leads⟩ := ih leaves
        refine ⟨rest, fun above name below length => ?_⟩
        rw [walkComponents_cons, enterComponent, if_neg isName, if_neg isParent]
        exact leads above name below length

theorem walkComponents_ne_nil (ends : EndsInName components) (directory : List Bytes) :
    walkComponents directory components ≠ [] := by
  obtain ⟨last, atEnd, isName⟩ := ends
  obtain ⟨front, rfl⟩ := List.getLast?_eq_some_iff.mp atEnd
  rw [walkComponents_append, walkComponents_cons, enterComponent_name isName]
  simp [walkComponents]

end Jdbx.Library
