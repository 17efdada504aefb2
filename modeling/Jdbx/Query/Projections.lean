import Jdbx.Query.QueryExecution

/-!
# Projections

What `query_apply_projection` keeps of a document.  Excluding keeps what it should leave out.
-/

namespace Jdbx

open Library

variable {δ : Type} [CDouble δ] {entries projection : List (Bytes × JsonValue δ)}
  {includeMode : Bool}

def fieldFlag (projection : List (Bytes × JsonValue δ)) (key : Bytes) : Option Bool :=
  (getEntry key projection).bind projectionFlag

def listed (projection : List (Bytes × JsonValue δ)) (key : Bytes) : Bool :=
  (fieldFlag projection key).isSome

def wanted (projection : List (Bytes × JsonValue δ)) (includeMode : Bool) (key : Bytes) : Bool :=
  if includeMode then key = ascii "uuid" || listed projection key
  else !listed projection key

def ProjectsWanted (entries projection : List (Bytes × JsonValue δ)) : Prop :=
  ∀ includeMode, projectionMode projection none = some (some includeMode) →
    ∃ fields, queryApplyProjection (.object entries) (.object projection) = .object fields ∧
      (entryKeys fields).Nodup ∧
      ∀ key, getEntry key fields =
        if wanted projection includeMode key then getEntry key entries else none

/-! ## What is kept -/

/-- The fields that `query_apply_projection` keeps. -/
def keepsField (projection : List (Bytes × JsonValue δ)) (includeMode : Bool) (key : Bytes) :
    Bool :=
  if key = ascii "uuid" then (fieldFlag projection key).getD true
  else (fieldFlag projection key).getD (!includeMode) = includeMode

omit [CDouble δ] in
theorem getEntry_filter (keep : Bytes → Bool) (key : Bytes) (entries : List (Bytes × JsonValue δ)) :
    getEntry key (entries.filter fun entry => keep entry.1) =
      if keep key then getEntry key entries else none := by
  induction entries with
  | nil => simp
  | cons entry entries ih =>
      by_cases kept : keep entry.1
      · rw [List.filter_cons_of_pos (by simpa using kept), getEntry, getEntry,
          ih]
        by_cases same : entry.1 = key
        · rw [if_pos same, if_pos same, if_pos (same ▸ kept)]
        · rw [if_neg same, if_neg same]
      · rw [List.filter_cons_of_neg (by simpa using kept), getEntry, ih]
        by_cases same : entry.1 = key
        · rw [if_neg (same ▸ kept), if_neg (same ▸ kept)]
        · rw [if_neg same]

omit [CDouble δ] in
theorem foldl_kept (keep : Bytes → Bool) :
    ∀ {entries : List (Bytes × JsonValue δ)}, WellFormedEntries entries →
      ∀ start : List (Bytes × JsonValue δ),
        (entryKeys (start ++ entries.filter fun entry => keep entry.1)).Nodup →
        entries.foldl
            (fun result entry =>
              if keep entry.1 then jsonObjectSet result entry.1 (jsonClone entry.2) else result)
            (.object start) =
          .object (start ++ entries.filter fun entry => keep entry.1)
  | [], _, start, _ => by
      rw [List.filter_nil, List.append_nil]
      rfl
  | (key, value) :: entries, ⟨_, wellFormed, rest⟩, start, distinct => by
      by_cases kept : keep key
      · rw [List.filter_cons_of_pos (by simpa using kept)] at distinct ⊢
        have fresh : key ∉ entryKeys start := by
          intro member
          rw [entryKeys, List.map_append, List.nodup_append] at distinct
          exact distinct.2.2 key member key (by simp) rfl
        rw [List.foldl_cons, if_pos kept, jsonObjectSet, jsonClone_eq_self wellFormed,
          setEntry_of_not_mem fresh, foldl_kept keep rest]
        · rw [List.append_assoc, List.singleton_append]
        · rwa [List.append_assoc, List.singleton_append]
      · rw [List.filter_cons_of_neg (by simpa using kept)] at distinct ⊢
        rw [List.foldl_cons, if_neg kept, foldl_kept keep rest start distinct]

def keptIdentity (entries projection : List (Bytes × JsonValue δ)) : List (Bytes × JsonValue δ) :=
  match getEntry (ascii "uuid") entries with
  | some id => if (fieldFlag projection (ascii "uuid")).getD true then [(ascii "uuid", id)] else []
  | none => []

def keptOthers (entries projection : List (Bytes × JsonValue δ)) (includeMode : Bool) :
    List (Bytes × JsonValue δ) :=
  entries.filter fun entry =>
    !decide (entry.1 = ascii "uuid") && keepsField projection includeMode entry.1

omit [CDouble δ] in
theorem entryKeys_keptIdentity : ∀ key ∈ entryKeys (keptIdentity entries projection),
    key = ascii "uuid" := by
  intro key member
  rw [keptIdentity] at member
  split at member
  · split_ifs at member
    · exact List.mem_singleton.mp member
    · cases member
  · cases member

omit [CDouble δ] in
theorem kept_nodup (distinct : (entryKeys entries).Nodup) (includeMode : Bool) :
    (entryKeys (keptIdentity entries projection ++
      keptOthers entries projection includeMode)).Nodup := by
  rw [entryKeys, List.map_append, List.nodup_append]
  refine ⟨?_, ?_, ?_⟩
  · rw [keptIdentity]
    split
    · split_ifs <;> simp
    · exact List.nodup_nil
  · exact distinct.sublist (List.filter_sublist.map _)
  · intro key first other second same
    obtain ⟨entry, inside, rfl⟩ := List.mem_map.mp second
    have different := (List.mem_filter.mp inside).2
    rw [Bool.and_eq_true, Bool.not_eq_true', decide_eq_false_iff_not] at different
    exact different.1 (same ▸ entryKeys_keptIdentity key first)

omit [CDouble δ] in
theorem getEntry_kept (key : Bytes) :
    getEntry key (keptIdentity entries projection ++ keptOthers entries projection includeMode) =
      if keepsField projection includeMode key then getEntry key entries else none := by
  rw [getEntry_append, keptOthers, getEntry_filter
    (fun key => !decide (key = ascii "uuid") && keepsField projection includeMode key)]
  by_cases identity : key = ascii "uuid"
  · rw [identity, keepsField, if_pos rfl, keptIdentity]
    cases getEntry (ascii "uuid") entries with
    | none => simp
    | some id => cases (fieldFlag projection (ascii "uuid")).getD true <;> simp [getEntry]
  · have absent : getEntry key (keptIdentity entries projection) = none :=
      getEntry_eq_none_iff.mpr fun member => identity (entryKeys_keptIdentity key member)
    rw [absent, Option.none_or, decide_eq_false identity, Bool.not_false, Bool.true_and]

theorem projectedDocument_eq (wellFormed : WellFormed (.object entries)) (includeMode : Bool) :
    projectedDocument entries projection includeMode =
      .object (keptIdentity entries projection ++ keptOthers entries projection includeMode) := by
  have loop : (fun (result : JsonValue δ) (entry : Bytes × JsonValue δ) =>
      if entry.1 = ascii "uuid" then result
      else
        if ((getEntry entry.1 projection).bind projectionFlag).getD (!includeMode) = includeMode
        then jsonObjectSet result entry.1 (jsonClone entry.2)
        else result) =
      fun result entry =>
        if !decide (entry.1 = ascii "uuid") && keepsField projection includeMode entry.1 then
          jsonObjectSet result entry.1 (jsonClone entry.2)
        else result := by
    funext result entry
    by_cases identity : entry.1 = ascii "uuid"
    · rw [if_pos identity, decide_eq_true identity, if_neg (by simp)]
    · rw [if_neg identity, decide_eq_false identity, Bool.not_false, Bool.true_and, keepsField,
        if_neg identity, fieldFlag]
      simp only [decide_eq_true_eq]
  have start : (match getEntry (ascii "uuid") entries with
      | some id =>
          if (fieldFlag projection (ascii "uuid")).getD true then
            jsonObjectSet (.object []) (ascii "uuid") (jsonClone id)
          else .object []
      | none => .object []) = JsonValue.object (keptIdentity entries projection) := by
    cases found : getEntry (ascii "uuid") entries with
    | none => simp [keptIdentity, found]
    | some id =>
        have inside := mem_of_getEntry_eq_some found
        have same : jsonClone id = id :=
          jsonClone_eq_self (wellFormedEntries_iff.mp wellFormed.2 _ inside).2
        simp only [keptIdentity, found, same]
        split_ifs <;> rfl
  have kept := foldl_kept
    (fun key => !decide (key = ascii "uuid") && keepsField projection includeMode key)
    wellFormed.2 (keptIdentity entries projection) (kept_nodup wellFormed.1 includeMode)
  rw [projectedDocument, loop]
  refine Eq.trans ?_ kept
  exact congrArg (fun result => entries.foldl _ result) start

omit [CDouble δ] in
theorem fieldFlag_cons (key tested : Bytes) (value : JsonValue δ)
    (projection : List (Bytes × JsonValue δ)) :
    fieldFlag ((key, value) :: projection) tested =
      if key = tested then projectionFlag value else fieldFlag projection tested := by
  rw [fieldFlag, getEntry]
  split_ifs <;> rfl

omit [CDouble δ] in
theorem flag_of_mode (projection : List (Bytes × JsonValue δ)) :
    ∀ {mode : Option Bool}, projectionMode projection mode = some (some includeMode) →
      (∀ flag ∈ mode, flag = includeMode) ∧ ∀ key ≠ ascii "uuid",
        ∀ flag ∈ fieldFlag projection key, flag = includeMode := by
  induction projection with
  | nil =>
      intro mode found
      cases found
      exact ⟨fun flag same => (Option.some.inj same).symm, fun _ _ _ => nofun⟩
  | cons entry projection ih =>
      obtain ⟨key, value⟩ := entry
      intro mode found
      simp only [projectionMode] at found
      have behind : ∀ {mode : Option Bool},
          projectionMode projection mode = some (some includeMode) →
            (∀ flag ∈ projectionFlag value, key ≠ ascii "uuid" → flag = includeMode) →
              ∀ tested ≠ ascii "uuid", ∀ flag ∈ fieldFlag ((key, value) :: projection) tested,
                flag = includeMode := by
        intro mode found first tested different flag
        rw [fieldFlag_cons]
        split_ifs with same
        · exact fun member => first flag member (same ▸ different)
        · exact (ih found).2 tested different flag
      split_ifs at found with identity
      · refine ⟨(ih found).1, behind found ?_⟩
        exact fun _ _ different => absurd identity different
      · cases flagged : projectionFlag value with
        | none =>
            simp only [flagged] at found
            refine ⟨(ih found).1, behind found ?_⟩
            rw [flagged]
            exact fun _ => nofun
        | some flag =>
            cases mode with
            | none =>
                simp only [flagged] at found
                refine ⟨fun _ => nofun, behind found ?_⟩
                intro other same _
                exact (ih found).1 other (flagged ▸ same)
            | some first =>
                simp only [flagged] at found
                split_ifs at found with agree
                refine ⟨(ih found).1, behind found ?_⟩
                intro other same _
                rw [← Option.some.inj (flagged.symm.trans same), agree]
                exact (ih found).1 first rfl

def KeepsWanted (projection : List (Bytes × JsonValue δ)) (includeMode : Bool) (key : Bytes) :
    Prop :=
  if includeMode then key = ascii "uuid" → fieldFlag projection key ≠ some false
  else key = ascii "uuid" ∧ fieldFlag projection key ≠ some true

instance (projection : List (Bytes × JsonValue δ)) (includeMode : Bool) (key : Bytes) :
    Decidable (KeepsWanted projection includeMode key) :=
  inferInstanceAs (Decidable
    (if includeMode then key = ascii "uuid" → fieldFlag projection key ≠ some false
      else key = ascii "uuid" ∧ fieldFlag projection key ≠ some true))

omit [CDouble δ] in
theorem keepsField_eq_wanted_iff (mode : projectionMode projection none = some (some includeMode))
    (key : Bytes) :
    keepsField projection includeMode key = wanted projection includeMode key ↔
      KeepsWanted projection includeMode key := by
  have flags := (flag_of_mode projection mode).2 key
  rw [keepsField, wanted, listed, KeepsWanted]
  by_cases identity : key = ascii "uuid"
  · cases includeMode <;> cases fieldFlag projection key with
    | none => simp [identity]
    | some flag => cases flag <;> simp [identity]
  · have agrees := flags identity
    cases flagged : fieldFlag projection key with
    | none => cases includeMode <;> simp [identity]
    | some flag =>
        rw [flagged] at agrees
        rw [agrees flag rfl]
        cases includeMode <;> simp [identity]

/-- A projection with a mode gives what is wanted just where the fields of the document allow
it: where it includes and does not leave out an identity that is there, or where it excludes
from a document without any field but the identity. -/
theorem projectsWanted_iff (wellFormed : WellFormed (.object entries)) :
    ProjectsWanted entries projection ↔
      ∀ includeMode, projectionMode projection none = some (some includeMode) →
        ∀ entry ∈ entries, KeepsWanted projection includeMode entry.1 := by
  have result : ∀ {includeMode : Bool},
      projectionMode projection none = some (some includeMode) →
        queryApplyProjection (.object entries) (.object projection) =
          .object (keptIdentity entries projection ++
            keptOthers entries projection includeMode) := by
    intro includeMode mode
    rw [queryApplyProjection, mode]
    exact projectedDocument_eq wellFormed includeMode
  constructor
  · intro projects includeMode mode entry inside
    obtain ⟨fields, projected, -, gives⟩ := projects includeMode mode
    rw [result mode] at projected
    cases projected
    have given := gives entry.1
    rw [getEntry_kept, getEntry_eq_some_of_mem wellFormed.1 inside] at given
    apply (keepsField_eq_wanted_iff mode entry.1).mp
    cases kept : keepsField projection includeMode entry.1 <;>
      cases want : wanted projection includeMode entry.1 <;> simp [kept, want] at given ⊢
  · intro keeps includeMode mode
    refine ⟨_, result mode, kept_nodup wellFormed.1 includeMode, fun key => ?_⟩
    rw [getEntry_kept]
    cases found : getEntry key entries with
    | none => simp
    | some value =>
        have inside := mem_of_getEntry_eq_some found
        rw [(keepsField_eq_wanted_iff mode key).mpr (keeps includeMode mode _ inside)]

def userFields : List (Bytes × JsonValue Rat) :=
  [(ascii "uuid", .string (ascii "u1")), (ascii "name", .string (ascii "Ann")),
    (ascii "password", .string (ascii "secret"))]

theorem projectsWanted_nameIncluded :
    ProjectsWanted userFields [(ascii "name", .integer 1)] := by
  refine (projectsWanted_iff (by decide +kernel)).mpr fun includeMode mode => ?_
  cases includeMode with
  | false => exact absurd mode (by decide +kernel)
  | true => decide +kernel

/-- The document without its password is nothing but the password and the identity. -/
theorem not_projectsWanted_passwordExcluded :
    ¬∀ entries projection : List (Bytes × JsonValue Rat), WellFormed (.object entries) →
      ProjectsWanted entries projection := by
  intro projects
  obtain ⟨fields, projected, -, gives⟩ :=
    projects userFields [(ascii "password", .integer 0)] (by decide +kernel) false
      (by decide +kernel)
  have given := gives (ascii "name")
  have looked := congrArg (fun result => (jsonObjectGet result (ascii "name")).isSome) projected
  rw [jsonObjectGet, given] at looked
  exact absurd looked (by decide +kernel)

end Jdbx
