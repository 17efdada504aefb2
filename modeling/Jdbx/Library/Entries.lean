import Mathlib.Data.List.Basic
import Mathlib.Data.List.Nodup

/-!
# Keyed entries in a list

A list of key and value pairs that is searched from the front.  Setting a key
overwrites its first entry in place, and appends a new entry when the key is
absent, so that lists built by `setEntry` alone have distinct keys.
-/

namespace Jdbx.Library

variable {κ ν : Type} [DecidableEq κ] {entries : List (κ × ν)} {key : κ} {value : ν}

def getEntry (key : κ) : List (κ × ν) → Option ν
  | [] => none
  | (other, value) :: entries => if other = key then some value else getEntry key entries

def setEntry (key : κ) (value : ν) : List (κ × ν) → List (κ × ν)
  | [] => [(key, value)]
  | (other, old) :: entries =>
    if other = key then (other, value) :: entries
    else (other, old) :: setEntry key value entries

def removeEntry (key : κ) : List (κ × ν) → List (κ × ν)
  | [] => []
  | (other, old) :: entries =>
    if other = key then entries
    else (other, old) :: removeEntry key entries

def entryKeys (entries : List (κ × ν)) : List κ :=
  entries.map Prod.fst

attribute [grind =] getEntry setEntry removeEntry entryKeys

@[simp]
theorem getEntry_nil (key : κ) : getEntry key ([] : List (κ × ν)) = none :=
  rfl

@[simp]
theorem getEntry_setEntry_self (key : κ) (value : ν) (entries : List (κ × ν)) :
    getEntry key (setEntry key value entries) = some value := by
  induction entries with
  | nil => simp [setEntry, getEntry]
  | cons entry entries ih =>
    obtain ⟨other, old⟩ := entry
    by_cases same : other = key
    · simp [setEntry, getEntry, same]
    · simpa [setEntry, getEntry, same] using ih

theorem getEntry_setEntry_of_ne {key tested : κ} (different : tested ≠ key)
    (value : ν) (entries : List (κ × ν)) :
    getEntry tested (setEntry key value entries) = getEntry tested entries := by
  induction entries with
  | nil => simp [setEntry, getEntry, different.symm]
  | cons entry entries ih =>
    obtain ⟨other, old⟩ := entry
    by_cases same : other = key
    · subst other
      simp [setEntry, getEntry, different.symm]
    · by_cases found : other = tested
      · subst other
        simp [setEntry, getEntry, different]
      · simpa [setEntry, getEntry, same, found] using ih

theorem getEntry_setEntry (key tested : κ) (value : ν) (entries : List (κ × ν)) :
    getEntry tested (setEntry key value entries) =
      if tested = key then some value else getEntry tested entries := by
  by_cases same : tested = key
  · simp [same]
  · simp [same, getEntry_setEntry_of_ne same]

theorem getEntry_eq_none_iff :
    getEntry key entries = none ↔ key ∉ entryKeys entries := by
  induction entries with
  | nil => simp [entryKeys]
  | cons entry entries ih =>
    obtain ⟨other, old⟩ := entry
    by_cases same : other = key
    · simp [getEntry, entryKeys, same]
    · simpa [getEntry, entryKeys, same, Ne.symm same] using ih

theorem mem_of_getEntry_eq_some (found : getEntry key entries = some value) :
    (key, value) ∈ entries := by
  induction entries with
  | nil => simp at found
  | cons entry entries ih =>
    obtain ⟨other, old⟩ := entry
    by_cases same : other = key
    · simp only [getEntry, same, ↓reduceIte, Option.some.injEq] at found
      simp [same, found]
    · simp only [getEntry, same, ↓reduceIte] at found
      exact List.mem_cons_of_mem _ (ih found)

theorem getEntry_eq_some_of_mem (distinct : (entryKeys entries).Nodup)
    (member : (key, value) ∈ entries) :
    getEntry key entries = some value := by
  induction entries with
  | nil => simp at member
  | cons entry entries ih =>
    obtain ⟨other, old⟩ := entry
    obtain ⟨headFresh, tailDistinct⟩ := List.nodup_cons.mp distinct
    rcases List.mem_cons.mp member with headEqual | tailMember
    · cases headEqual
      simp [getEntry]
    · have different : other ≠ key := by
        rintro rfl
        exact headFresh (List.mem_map.mpr ⟨(other, value), tailMember, rfl⟩)
      simpa [getEntry, different] using ih tailDistinct tailMember

theorem setEntry_of_not_mem (fresh : key ∉ entryKeys entries) (value : ν) :
    setEntry key value entries = entries ++ [(key, value)] := by
  induction entries with
  | nil => rfl
  | cons entry entries ih =>
    obtain ⟨other, old⟩ := entry
    simp only [entryKeys, List.map_cons, List.mem_cons, not_or] at fresh
    obtain ⟨different, tailFresh⟩ := fresh
    simp [setEntry, Ne.symm different, ih tailFresh]

theorem mem_setEntry {entry : κ × ν} (member : entry ∈ setEntry key value entries) :
    entry = (key, value) ∨ entry ∈ entries := by
  induction entries with
  | nil => exact Or.inl (List.mem_singleton.mp member)
  | cons head entries ih =>
    obtain ⟨other, old⟩ := head
    by_cases same : other = key
    · rw [setEntry, if_pos same] at member
      rcases List.mem_cons.mp member with first | inTail
      · exact Or.inl (by rw [first, same])
      · exact Or.inr (List.mem_cons_of_mem _ inTail)
    · rw [setEntry, if_neg same] at member
      rcases List.mem_cons.mp member with first | inTail
      · exact Or.inr (by rw [first]; exact List.mem_cons_self)
      · exact (ih inTail).imp_right (List.mem_cons_of_mem _)

theorem foldl_setEntry_of_nodup (members : List (κ × ν)) :
    ∀ entries : List (κ × ν), (entryKeys (entries ++ members)).Nodup →
      members.foldl (fun entries member => setEntry member.1 member.2 entries) entries =
        entries ++ members := by
  induction members with
  | nil =>
    intro entries _
    exact (List.append_nil entries).symm
  | cons member members ih =>
    intro entries nodup
    have fresh : member.1 ∉ entryKeys entries := by
      intro duplicate
      rw [entryKeys, List.map_append, List.nodup_append] at nodup
      exact nodup.2.2 member.1 duplicate member.1 (by simp) rfl
    have layout : entries ++ member :: members = entries ++ [member] ++ members := by
      simp
    rw [layout] at nodup ⊢
    rw [List.foldl_cons, setEntry_of_not_mem fresh]
    exact ih (entries ++ [member]) nodup

theorem getEntry_map_value {ω : Type} (change : ν → ω) (key : κ) (entries : List (κ × ν)) :
    getEntry key (entries.map fun entry => (entry.1, change entry.2)) =
      (getEntry key entries).map change := by
  induction entries with
  | nil => rfl
  | cons entry entries ih =>
    by_cases same : entry.1 = key
    · simp [getEntry, same]
    · simpa [getEntry, same] using ih

theorem getEntry_append (key : κ) (entries others : List (κ × ν)) :
    getEntry key (entries ++ others) = (getEntry key entries).or (getEntry key others) := by
  induction entries with
  | nil => rfl
  | cons entry entries ih =>
    obtain ⟨other, value⟩ := entry
    by_cases same : other = key
    · simp [getEntry, same]
    · simpa [getEntry, same] using ih

theorem entryKeys_setEntry (key : κ) (value : ν) (entries : List (κ × ν)) :
    entryKeys (setEntry key value entries) =
      if key ∈ entryKeys entries then entryKeys entries
      else entryKeys entries ++ [key] := by
  induction entries with
  | nil => simp [setEntry, entryKeys]
  | cons entry entries ih =>
    obtain ⟨other, old⟩ := entry
    by_cases same : other = key
    · simp [setEntry, entryKeys, same]
    · have head : entryKeys (setEntry key value ((other, old) :: entries)) =
          other :: entryKeys (setEntry key value entries) := by
        simp [setEntry, entryKeys, same]
      have member : key ∈ entryKeys ((other, old) :: entries) ↔ key ∈ entryKeys entries := by
        simp [entryKeys, Ne.symm same]
      rw [head, ih, if_congr member rfl rfl]
      split <;> rfl

theorem entryKeys_setEntry_nodup (distinct : (entryKeys entries).Nodup) (key : κ) (value : ν) :
    (entryKeys (setEntry key value entries)).Nodup := by
  rw [entryKeys_setEntry]
  split
  · exact distinct
  · rename_i fresh
    simpa [List.nodup_append] using ⟨distinct, fun other member equal => fresh (equal ▸ member)⟩

theorem getEntry_removeEntry_of_ne {key tested : κ} (different : tested ≠ key)
    (entries : List (κ × ν)) :
    getEntry tested (removeEntry key entries) = getEntry tested entries := by
  induction entries with
  | nil => rfl
  | cons entry entries ih =>
    obtain ⟨other, old⟩ := entry
    by_cases same : other = key
    · subst other
      simp [removeEntry, getEntry, different.symm]
    · by_cases found : other = tested
      · subst other
        simp [removeEntry, getEntry, different]
      · simpa [removeEntry, getEntry, same, found] using ih

theorem getEntry_removeEntry_self (distinct : (entryKeys entries).Nodup) :
    getEntry key (removeEntry key entries) = none := by
  induction entries with
  | nil => rfl
  | cons entry entries ih =>
    obtain ⟨other, old⟩ := entry
    obtain ⟨headFresh, tailDistinct⟩ := List.nodup_cons.mp distinct
    by_cases same : other = key
    · subst other
      simpa [removeEntry] using getEntry_eq_none_iff.mpr headFresh
    · simpa [removeEntry, getEntry, same] using ih tailDistinct

theorem removeEntry_sublist (key : κ) (entries : List (κ × ν)) :
    (removeEntry key entries).Sublist entries := by
  induction entries with
  | nil => exact List.Sublist.refl []
  | cons entry entries ih =>
    obtain ⟨other, old⟩ := entry
    by_cases same : other = key
    · simp [removeEntry, same]
    · simpa [removeEntry, same] using ih

theorem entryKeys_removeEntry_nodup (distinct : (entryKeys entries).Nodup) (key : κ) :
    (entryKeys (removeEntry key entries)).Nodup :=
  distinct.sublist ((removeEntry_sublist key entries).map Prod.fst)

theorem removeEntry_of_absent (absent : getEntry key entries = none) :
    removeEntry key entries = entries := by
  induction entries with
  | nil => rfl
  | cons entry entries ih =>
    obtain ⟨other, old⟩ := entry
    by_cases same : other = key
    · simp [getEntry, same] at absent
    · simp only [getEntry, if_neg same] at absent
      rw [removeEntry, if_neg same, ih absent]

theorem removeEntry_middle {before after : List (κ × ν)}
    (distinct : (entryKeys (before ++ (key, value) :: after)).Nodup) :
    removeEntry key (before ++ (key, value) :: after) = before ++ after := by
  induction before with
  | nil => simp [removeEntry]
  | cons entry before ih =>
    obtain ⟨other, old⟩ := entry
    obtain ⟨headFresh, tailDistinct⟩ := List.nodup_cons.mp distinct
    have different : other ≠ key := by
      rintro rfl
      exact headFresh (by simp)
    simpa [removeEntry, different] using ih tailDistinct

theorem not_mem_entryKeys_of_removeEntry (same : removeEntry key entries = entries) :
    key ∉ entryKeys entries := by
  induction entries with
  | nil => simp [entryKeys]
  | cons entry entries ih =>
    obtain ⟨other, old⟩ := entry
    by_cases found : other = key
    · rw [removeEntry, if_pos found] at same
      have shorter := congrArg List.length same
      simp at shorter
    · rw [removeEntry, if_neg found, List.cons.injEq] at same
      simpa [entryKeys, Ne.symm found] using ih same.2

theorem getEntry_foldl_setEntry (key : κ) (source : κ → Option ν) :
    ∀ (keys : List κ) (entries : List (κ × ν)),
      getEntry key (keys.foldl
          (fun entries other =>
            (source other).elim entries fun value => setEntry other value entries) entries) =
        if key ∈ keys then (source key).or (getEntry key entries) else getEntry key entries := by
  intro keys
  induction keys with
  | nil =>
    intro entries
    rfl
  | cons first keys ih =>
    intro entries
    rw [List.foldl_cons, ih]
    cases found : source first with
    | none =>
      by_cases same : key = first
      · rw [same]
        simp [found]
      · simp [same]
    | some value =>
      rw [Option.elim_some, getEntry_setEntry]
      by_cases same : key = first
      · rw [same]
        simp [found]
      · simp [same]

end Jdbx.Library
