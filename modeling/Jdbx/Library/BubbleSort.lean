import Mathlib.Data.List.Triplewise
import Mathlib.Data.List.Basic

/-!
# Bubble sort

A sort that swaps neighbours.  The comparison need not be an order: the result is sorted and
stable exactly if the comparison orders any three items in one way.
-/

namespace Jdbx.Library

/-- Swap the items at `index` and behind it if they stand the wrong way round. -/
def swapAt {α : Type} (after : α → α → Bool) (items : List α) (index : Nat) : List α :=
  match items[index]?, items[index + 1]? with
  | some first, some second =>
      if after first second then (items.set index second).set (index + 1) first else items
  | _, _ => items

def sink {α : Type} (after : α → α → Bool) (head : α) : List α → List α
  | [] => [head]
  | next :: rest =>
      if after head next then next :: sink after head rest else head :: sink after next rest

def bubbleSort {α : Type} (after : α → α → Bool) (items : List α) : List α :=
  (List.range (items.length - 1)).foldl
    (fun current pass =>
      (List.range (items.length - pass - 1)).foldl (swapAt after) current)
    items

attribute [grind =] swapAt sink

section Passes

variable {α : Type} {after : α → α → Bool}

theorem swapAt_succ (first : α) (items : List α) (index : Nat) :
    swapAt after (first :: items) (index + 1) = first :: swapAt after items index := by
  simp only [swapAt, List.getElem?_cons_succ]
  split
  · split
    · simp only [List.set_cons_succ]
    · rfl
  · rfl

theorem foldl_swapAt_succ (first : α) (items : List α) (indices : List Nat) :
    (indices.map Nat.succ).foldl (swapAt after) (first :: items) =
      first :: indices.foldl (swapAt after) items := by
  induction indices generalizing items with
  | nil => rfl
  | cons index indices ih =>
      rw [List.map_cons, List.foldl_cons, List.foldl_cons, Nat.succ_eq_add_one, swapAt_succ,
        ih]

theorem foldl_swapAt (head : α) (items back : List α) :
    (List.range items.length).foldl (swapAt after) (head :: items ++ back) =
      sink after head items ++ back := by
  induction items generalizing head with
  | nil => simp [sink]
  | cons next rest ih =>
      rw [List.length_cons, List.range_succ_eq_map, List.foldl_cons]
      by_cases swapped : after head next = true
      · have step : swapAt after (head :: (next :: rest) ++ back) 0 =
            next :: (head :: rest ++ back) := by
          simp [swapAt, swapped]
        rw [step, foldl_swapAt_succ, ih]
        simp [sink, swapped]
      · have step : swapAt after (head :: (next :: rest) ++ back) 0 =
            head :: (next :: rest ++ back) := by
          simp [swapAt, swapped]
        rw [step, foldl_swapAt_succ, ih]
        simp [sink, swapped]

theorem sink_map {β : Type} (image : β → α) (head : β) (items : List β) :
    sink after (image head) (items.map image) =
      (sink (fun first second => after (image first) (image second)) head items).map image := by
  induction items generalizing head with
  | nil => rfl
  | cons next rest ih =>
      simp only [List.map_cons, sink]
      split
      · rw [List.map_cons, ih]
      · rw [List.map_cons, ih]

theorem sink_perm (head : α) (items : List α) :
    (sink after head items).Perm (head :: items) := by
  induction items generalizing head with
  | nil => exact .refl _
  | cons next rest ih =>
      rw [sink]
      split
      · exact ((ih head).cons next).trans (.swap head next rest)
      · exact (ih next).cons head

theorem mem_of_sink {head last : α} {rest front : List α}
    (sinks : sink after head rest = front ++ [last]) :
    last ∈ head :: rest ∧ head ∈ front ++ [last] ∧ ∀ item ∈ front, item ∈ head :: rest := by
  have permuted := sinks ▸ sink_perm head rest
  refine ⟨permuted.mem_iff.mp (by simp), permuted.mem_iff.mpr (by simp), ?_⟩
  exact fun item isFront => permuted.mem_iff.mp (List.mem_append_left _ isFront)

end Passes

section Stability

variable {α : Type} (after : α → α → Bool)

def Precedes (first second : α × Nat) : Prop :=
  after first.1 second.1 = false ∧ (after second.1 first.1 = false → first.2 < second.2)

/-- The result has the items in the order of the comparison, and those that it does not tell
apart in the order they came in. -/
def StablySorted (items result : List α) : Prop :=
  ∃ tagged : List (α × Nat), tagged.Perm items.zipIdx ∧ tagged.map Prod.fst = result ∧
    tagged.Pairwise (Precedes after)

/-- An item comes after the third if it comes after the second and that one after the third,
and only if it or the second comes after the one behind it. -/
def OrdersTriples (items : List α) : Prop :=
  items.Triplewise fun first second third =>
    (after first second = true → after second third = true → after first third = true) ∧
      (after first third = true → after first second = true ∨ after second third = true)

variable {after} {items : List α} {first second : α × Nat}

theorem Precedes.asymm (precedes : Precedes after first second) :
    ¬ Precedes after second first := by
  intro follows
  have less := precedes.2 follows.1
  have greater := follows.2 precedes.1
  omega

theorem Precedes.of_lt (less : first.2 < second.2) (free : after first.1 second.1 = false) :
    Precedes after first second :=
  ⟨free, fun _ => less⟩

theorem Precedes.after_of_lt (precedes : Precedes after second first) (less : first.2 < second.2) :
    after first.1 second.1 = true := by
  by_contra free
  have greater := precedes.2 (Bool.eq_false_iff.mpr free)
  omega

def NoCycle (after : α → α → Bool) (tagged : List (α × Nat)) : Prop :=
  ∀ first ∈ tagged, ∀ second ∈ tagged, ∀ third ∈ tagged, Precedes after first second →
    Precedes after second third → ¬ Precedes after third first

theorem noCycle_of_pairwise {tagged : List (α × Nat)}
    (sorted : tagged.Pairwise (Precedes after)) : NoCycle after tagged := by
  have positions : ∀ {place other : Nat} (inside : place < tagged.length)
      (otherInside : other < tagged.length),
      Precedes after tagged[place] tagged[other] → place < other := by
    intro place other inside otherInside precedes
    rcases Nat.lt_trichotomy place other with less | same | greater
    · exact less
    · subst same
      exact absurd precedes precedes.asymm
    · exact absurd precedes
        (List.pairwise_iff_getElem.mp sorted other place otherInside inside greater).asymm
  intro first firstIn second secondIn third thirdIn one two three
  obtain ⟨i, firstInside, rfl⟩ := List.getElem_of_mem firstIn
  obtain ⟨j, secondInside, rfl⟩ := List.getElem_of_mem secondIn
  obtain ⟨k, thirdInside, rfl⟩ := List.getElem_of_mem thirdIn
  have less := positions firstInside secondInside one
  have lessStill := positions secondInside thirdInside two
  have back := positions thirdInside firstInside three
  omega

theorem mem_zipIdx_getElem {index : Nat} (inside : index < items.length) :
    (items[index], index) ∈ items.zipIdx :=
  List.mem_zipIdx_iff_getElem?.mpr (List.getElem?_eq_getElem inside)

theorem stablySorted_self (never : ∀ first second : α, after first second = false)
    (items : List α) : StablySorted after items items := by
  refine ⟨items.zipIdx, .refl _, by simp, ?_⟩
  refine List.pairwise_iff_getElem.mpr fun i j _ _ less => ?_
  exact .of_lt (by simpa using less) (never _ _)

variable (asymm : ∀ first second : α, after first second = true → after second first = false)

include asymm

theorem Precedes.of_after (isAfter : after second.1 first.1 = true) :
    Precedes after first second :=
  ⟨asymm _ _ isAfter, fun free => absurd isAfter (Bool.eq_false_iff.mp free)⟩

theorem precedes_total (different : first.2 ≠ second.2) :
    Precedes after first second ∨ Precedes after second first := by
  by_cases isAfter : after first.1 second.1 = true
  · exact .inr (.of_after asymm isAfter)
  · by_cases isBefore : after second.1 first.1 = true
    · exact .inl (.of_after asymm isBefore)
    · rcases Nat.lt_or_gt_of_ne different with less | greater
      · exact .inl (.of_lt less (Bool.eq_false_iff.mpr isAfter))
      · exact .inr (.of_lt greater (Bool.eq_false_iff.mpr isBefore))

theorem StablySorted.consistent {items result : List α}
    (sorted : StablySorted after items result) : OrdersTriples after items := by
  obtain ⟨tagged, permuted, _, ordered⟩ := sorted
  have noCycle := noCycle_of_pairwise ordered
  refine List.triplewise_iff_getElem.mpr fun i j k less lessStill inside => ?_
  have first := permuted.mem_iff.mpr (mem_zipIdx_getElem (by omega : i < items.length))
  have second := permuted.mem_iff.mpr (mem_zipIdx_getElem (by omega : j < items.length))
  have third := permuted.mem_iff.mpr (mem_zipIdx_getElem inside)
  constructor
  · intro firstAfter secondAfter
    by_contra free
    exact noCycle _ first _ third _ second
      (.of_lt (Nat.lt_trans less lessStill) (Bool.eq_false_iff.mpr free))
      (.of_after asymm secondAfter) (.of_after asymm firstAfter)
  · intro outer
    by_contra neither
    rw [not_or, Bool.not_eq_true, Bool.not_eq_true] at neither
    exact noCycle _ first _ second _ third (.of_lt less neither.1) (.of_lt lessStill neither.2)
      (.of_after asymm outer)

omit asymm in
theorem OrdersTriples.triple (consistent : OrdersTriples after items)
    {first second third : α × Nat} (firstIn : first ∈ items.zipIdx)
    (secondIn : second ∈ items.zipIdx) (thirdIn : third ∈ items.zipIdx)
    (less : first.2 < second.2) (lessStill : second.2 < third.2) :
    (after first.1 second.1 = true → after second.1 third.1 = true →
      after first.1 third.1 = true) ∧
      (after first.1 third.1 = true →
        after first.1 second.1 = true ∨ after second.1 third.1 = true) := by
  obtain ⟨firstInside, firstAt⟩ :=
    List.getElem?_eq_some_iff.mp (List.mem_zipIdx_iff_getElem?.mp firstIn)
  obtain ⟨secondInside, secondAt⟩ :=
    List.getElem?_eq_some_iff.mp (List.mem_zipIdx_iff_getElem?.mp secondIn)
  obtain ⟨thirdInside, thirdAt⟩ :=
    List.getElem?_eq_some_iff.mp (List.mem_zipIdx_iff_getElem?.mp thirdIn)
  have holds := List.triplewise_iff_getElem.mp consistent _ _ _ less lessStill thirdInside
  rwa [firstAt, secondAt, thirdAt] at holds

omit asymm in
theorem OrdersTriples.noCycle_of_least (consistent : OrdersTriples after items)
    {first second third : α × Nat} (firstIn : first ∈ items.zipIdx)
    (secondIn : second ∈ items.zipIdx) (thirdIn : third ∈ items.zipIdx)
    (one : Precedes after first second) (two : Precedes after second third)
    (three : Precedes after third first) (different : second.2 ≠ third.2)
    (belowSecond : first.2 < second.2) (belowThird : first.2 < third.2) : False := by
  have outer : after first.1 third.1 = true := three.after_of_lt belowThird
  rcases Nat.lt_or_gt_of_ne different with less | greater
  · have triple := consistent.triple firstIn secondIn thirdIn belowSecond less
    rcases triple.2 outer with isAfter | isAfter
    · exact absurd isAfter (Bool.eq_false_iff.mp one.1)
    · exact absurd isAfter (Bool.eq_false_iff.mp two.1)
  · have triple := consistent.triple firstIn thirdIn secondIn belowThird greater
    exact absurd (triple.1 outer (two.after_of_lt greater)) (Bool.eq_false_iff.mp one.1)

omit asymm in
theorem Precedes.ne_tag (firstIn : first ∈ items.zipIdx) (secondIn : second ∈ items.zipIdx)
    (precedes : Precedes after first second) : first.2 ≠ second.2 := by
  intro same
  have firstAt := List.mem_zipIdx_iff_getElem?.mp firstIn
  have secondAt := List.mem_zipIdx_iff_getElem?.mp secondIn
  rw [same, secondAt, Option.some.injEq] at firstAt
  have equal : first = second := Prod.ext firstAt.symm same
  exact (equal ▸ precedes).asymm (equal ▸ precedes)

omit asymm in
theorem OrdersTriples.noCycle (consistent : OrdersTriples after items) :
    NoCycle after items.zipIdx := by
  intro first firstIn second secondIn third thirdIn one two three
  have firstSecond := one.ne_tag firstIn secondIn
  have secondThird := two.ne_tag secondIn thirdIn
  have thirdFirst := three.ne_tag thirdIn firstIn
  by_cases leastFirst : first.2 < second.2 ∧ first.2 < third.2
  · exact consistent.noCycle_of_least firstIn secondIn thirdIn one two three secondThird
      leastFirst.1 leastFirst.2
  · by_cases leastSecond : second.2 < third.2 ∧ second.2 < first.2
    · exact consistent.noCycle_of_least secondIn thirdIn firstIn two three one thirdFirst
        leastSecond.1 leastSecond.2
    · exact consistent.noCycle_of_least thirdIn firstIn secondIn three one two firstSecond
        (by omega) (by omega)

theorem OrdersTriples.trans (consistent : OrdersTriples after items)
    {first second third : α × Nat} (firstIn : first ∈ items.zipIdx)
    (secondIn : second ∈ items.zipIdx) (thirdIn : third ∈ items.zipIdx)
    (one : Precedes after first second) (two : Precedes after second third) :
    Precedes after first third := by
  have notBack := consistent.noCycle first firstIn second secondIn third thirdIn one two
  by_cases same : first.2 = third.2
  · -- the first would be the third, and come before and after the second
    have firstAt := List.mem_zipIdx_iff_getElem?.mp firstIn
    have thirdAt := List.mem_zipIdx_iff_getElem?.mp thirdIn
    rw [same, thirdAt, Option.some.injEq] at firstAt
    have equal : first = third := Prod.ext firstAt.symm same
    exact absurd two (equal ▸ one).asymm
  · exact (precedes_total asymm same).resolve_right notBack

theorem OrdersTriples.before_last (consistent : OrdersTriples after items)
    {before carried last : α × Nat} {front : List (α × Nat)} (beforeIn : before ∈ items.zipIdx)
    (carriedIn : carried ∈ items.zipIdx) (lastIn : last ∈ items.zipIdx)
    (precedes : Precedes after before carried) (member : carried ∈ front ++ [last])
    (lastBehind : ∀ item ∈ front, Precedes after item last) : Precedes after before last := by
  rcases List.mem_append.mp member with isFront | isLast
  · exact consistent.trans asymm beforeIn carriedIn lastIn precedes (lastBehind carried isFront)
  · exact List.mem_singleton.mp isLast ▸ precedes

def Drifted (after : α → α → Bool) (first second : α × Nat) : Prop :=
  first.2 < second.2 ∨ Precedes after first second

theorem sink_last (consistent : OrdersTriples after items) (head : α × Nat)
    (rest : List (α × Nat)) (inItems : ∀ item ∈ head :: rest, item ∈ items.zipIdx)
    (drifted : (head :: rest).Pairwise (Drifted after)) :
    ∃ front last, sink (fun first second => after first.1 second.1) head rest = front ++ [last] ∧
      (∀ item ∈ front, Precedes after item last) ∧ front.Pairwise (Drifted after) := by
  induction rest generalizing head with
  | nil => exact ⟨[], head, rfl, nofun, .nil⟩
  | cons next rest ih =>
      rw [List.pairwise_cons, List.pairwise_cons] at drifted
      have headIn : head ∈ items.zipIdx := inItems head (by simp)
      have nextIn : next ∈ items.zipIdx := inItems next (by simp)
      rw [sink]
      split
      · rename_i isAfter
        have nextFirst : Precedes after next head := .of_after asymm isAfter
        obtain ⟨front, last, sinks, lastBehind, frontDrifted⟩ :=
          ih head (fun item member => inItems item (by
            rcases List.mem_cons.mp member with isHead | isRest
            · simp [isHead]
            · simp [isRest]))
            (List.pairwise_cons.mpr
              ⟨fun item isRest => drifted.1 item (by simp [isRest]), drifted.2.2⟩)
        have members := mem_of_sink sinks
        have lastIn : last ∈ items.zipIdx := by
          rcases List.mem_cons.mp members.1 with isHead | isRest
          · rwa [isHead]
          · exact inItems last (by simp [isRest])
        refine ⟨next :: front, last, by rw [sinks, List.cons_append], ?_, ?_⟩
        · intro item member
          rcases List.mem_cons.mp member with rfl | isFront
          · exact consistent.before_last asymm nextIn headIn lastIn nextFirst members.2.1 lastBehind
          · exact lastBehind item isFront
        · refine List.pairwise_cons.mpr ⟨fun item isFront => ?_, frontDrifted⟩
          rcases List.mem_cons.mp (members.2.2 item isFront) with rfl | isRest
          · exact .inr nextFirst
          · exact drifted.2.1 item isRest
      · rename_i notAfter
        have headFirst : Precedes after head next := by
          rcases drifted.1 next (by simp) with less | precedes
          · exact .of_lt less (Bool.eq_false_iff.mpr notAfter)
          · exact precedes
        obtain ⟨front, last, sinks, lastBehind, frontDrifted⟩ :=
          ih next (fun item member => inItems item (List.mem_cons_of_mem _ member))
            (List.pairwise_cons.mpr drifted.2)
        have members := mem_of_sink sinks
        have lastIn : last ∈ items.zipIdx := inItems last (List.mem_cons_of_mem _ members.1)
        refine ⟨head :: front, last, by rw [sinks, List.cons_append], ?_, ?_⟩
        · intro item member
          rcases List.mem_cons.mp member with rfl | isFront
          · exact consistent.before_last asymm headIn nextIn lastIn headFirst members.2.1 lastBehind
          · exact lastBehind item isFront
        · exact List.pairwise_cons.mpr
            ⟨fun item isFront => drifted.1 item (members.2.2 item isFront), frontDrifted⟩

def PassesDone (after : α → α → Bool) (items : List α) (passes : Nat) (current : List α) : Prop :=
  ∃ front back : List (α × Nat), (front ++ back).Perm items.zipIdx ∧
    (front ++ back).map Prod.fst = current ∧ back.length = passes ∧
    front.Pairwise (Drifted after) ∧ back.Pairwise (Precedes after) ∧
    ∀ first ∈ front, ∀ second ∈ back, Precedes after first second

theorem PassesDone.pass {items current : List α} (consistent : OrdersTriples after items)
    {passes : Nat} (less : passes < items.length) (done : PassesDone after items passes current) :
    PassesDone after items (passes + 1)
      ((List.range (items.length - passes - 1)).foldl (swapAt after) current) := by
  obtain ⟨front, back, permuted, isCurrent, sameLength, drifted, sorted, between⟩ := done
  have size : front.length + back.length = items.length := by
    simpa using permuted.length_eq
  cases front with
  | nil => simp only [List.length_nil] at size; omega
  | cons head rest =>
      rw [List.length_cons] at size
      have inItems : ∀ item ∈ head :: rest, item ∈ items.zipIdx := fun item member =>
        permuted.mem_iff.mp (List.mem_append_left _ member)
      obtain ⟨front, last, sinks, lastBehind, frontDrifted⟩ :=
        sink_last asymm consistent head rest inItems drifted
      have sameItems : (front ++ [last]).Perm (head :: rest) := sinks ▸ sink_perm head rest
      have rounds : items.length - passes - 1 = (rest.map Prod.fst).length := by
        rw [List.length_map]
        omega
      refine ⟨front, last :: back, ?_, ?_, by rw [List.length_cons, sameLength], frontDrifted, ?_,
        ?_⟩
      · have moved : front ++ last :: back = (front ++ [last]) ++ back := by simp
        exact moved ▸ (sameItems.append_right back).trans permuted
      · have layout : (head :: rest ++ back).map Prod.fst =
            head.1 :: rest.map Prod.fst ++ back.map Prod.fst := by
          simp
        rw [← isCurrent, rounds, layout, foldl_swapAt, sink_map, sinks]
        simp
      · refine List.pairwise_cons.mpr ⟨fun item isBack => ?_, sorted⟩
        exact between last (sameItems.mem_iff.mp (by simp)) item isBack
      · intro first isFront second isBack
        rcases List.mem_cons.mp isBack with rfl | isBack
        · exact lastBehind first isFront
        · exact between first (sameItems.mem_iff.mp (List.mem_append_left _ isFront)) second isBack

theorem passesDone_foldl (consistent : OrdersTriples after items) (passes : Nat)
    (inside : passes ≤ items.length) :
    PassesDone after items passes ((List.range passes).foldl
      (fun current pass =>
        (List.range (items.length - pass - 1)).foldl (swapAt after) current)
      items) := by
  induction passes with
  | zero =>
      refine ⟨items.zipIdx, [], by simp, by simp, rfl, ?_, .nil, nofun⟩
      refine List.pairwise_iff_getElem.mpr fun i j _ _ less => .inl ?_
      simpa using less
  | succ passes ih =>
      rw [List.range_succ, List.foldl_append]
      exact (ih (by omega)).pass asymm consistent (by omega)

theorem bubbleSort_stablySorted_iff :
    StablySorted after items (bubbleSort after items) ↔ OrdersTriples after items := by
  refine ⟨fun sorted => sorted.consistent asymm, fun consistent => ?_⟩
  obtain ⟨front, back, permuted, isCurrent, sameLength, _, sorted, between⟩ :=
    passesDone_foldl asymm consistent (items.length - 1) (by omega)
  refine ⟨front ++ back, permuted, isCurrent, List.pairwise_append.mpr ⟨?_, sorted, between⟩⟩
  have size : front.length + back.length = items.length := by
    simpa using permuted.length_eq
  match front with
  | [] => exact .nil
  | [only] => exact List.pairwise_singleton _ only
  | _ :: _ :: _ => simp only [List.length_cons] at size; omega

end Stability

end Jdbx.Library
