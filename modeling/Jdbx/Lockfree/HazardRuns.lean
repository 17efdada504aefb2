import Jdbx.Library.ThreadList
import Jdbx.Lockfree.HazardPointers
import Mathlib.Data.List.Nodup
import Mathlib.Data.Option.Basic

/-!
# Runs over hazard pointers

A guard of a retired pointer stands in a record that a scan of the pointer's domain has still
to look at, so that no scan passes it by.
-/

namespace Jdbx

open Library

variable {state next : HazardState} {thread record index domain done pointer : Nat}
  {self changed : HazardThread} {granted : Bool} {rest : List Nat}

namespace HazardState

theorem records_modify (state : HazardState) (record : Nat) (change : HazardRecord → HazardRecord)
    (other : Nat) : (state.records.modify record change)[other]? =
      state.records[other]?.map (if record = other then change else id) := by
  rw [List.getElem?_modify]
  split_ifs <;> simp

@[simp] theorem isActive_setSlot (other : Nat) (held : Option Nat) :
    (state.setSlot record index held).isActive other = state.isActive other := by
  rw [isActive, isActive, setSlot, records_modify, Option.map_map]
  split_ifs <;> rfl

@[simp] theorem isActive_clearSlots (other : Nat) :
    (state.clearSlots record).isActive other = state.isActive other := by
  rw [isActive, isActive, clearSlots, records_modify, Option.map_map]
  split_ifs <;> rfl

theorem isActive_setActive_of_ne {other : Nat} (different : record ≠ other) (active : Bool) :
    (state.setActive record active).isActive other = state.isActive other := by
  rw [isActive, isActive, setActive, records_modify, if_neg different, Option.map_id]
  rfl

theorem isActive_setActive_true (active : state.isActive pointer = true) :
    (state.setActive record true).isActive pointer = true := by
  rw [isActive, setActive, records_modify, Option.map_map]
  rw [isActive] at active
  cases found : state.records[pointer]? with
  | none =>
      rw [found] at active
      cases active
  | some entry =>
      rw [found] at active
      split_ifs
      · rfl
      · exact active

@[simp] theorem domainOf_setSlot (other : Nat) (held : Option Nat) :
    (state.setSlot record index held).domainOf other = state.domainOf other := by
  rw [domainOf, domainOf, setSlot, records_modify, Option.map_map]
  split_ifs <;> rfl

@[simp] theorem domainOf_clearSlots (other : Nat) :
    (state.clearSlots record).domainOf other = state.domainOf other := by
  rw [domainOf, domainOf, clearSlots, records_modify, Option.map_map]
  split_ifs <;> rfl

@[simp] theorem domainOf_setActive (other : Nat) (active : Bool) :
    (state.setActive record active).domainOf other = state.domainOf other := by
  rw [domainOf, domainOf, setActive, records_modify, Option.map_map]
  split_ifs <;> rfl

theorem slot_setActive (active : Bool) (other place : Nat) :
    (state.setActive record active).slot other place = state.slot other place := by
  rw [slot, slot, setActive, records_modify, Option.bind_map]
  split_ifs <;> rfl

theorem slot_clearSlots_of_ne {other : Nat} (different : record ≠ other) (place : Nat) :
    (state.clearSlots record).slot other place = state.slot other place := by
  rw [slot, slot, clearSlots, records_modify, if_neg different, Option.map_id]
  rfl

theorem slot_setSlot_of_ne {held : Option Nat} {slot : HazardSlot}
    (different : slot ≠ ⟨record, index⟩) :
    (state.setSlot record index held).slot slot.record slot.index =
      state.slot slot.record slot.index := by
  rw [HazardState.slot, HazardState.slot, setSlot, records_modify, Option.bind_map]
  split_ifs with same
  · have elsewhere : index ≠ slot.index := by
      rintro rfl
      exact different (HazardSlot.ext same.symm rfl)
    congr 2
    funext entry
    exact List.getElem?_set_ne elsewhere
  · rfl

theorem slot_setSlot_self {held : Option Nat} (before : state.slot record index = some pointer) :
    (state.setSlot record index held).slot record index = held := by
  rw [slot, Option.join_eq_some_iff] at before
  obtain ⟨entry, there, inside⟩ := Option.bind_eq_some_iff.mp before
  rw [slot, setSlot, records_modify, if_pos rfl, there, Option.map_some, Option.bind_some,
    List.getElem?_set_self (List.getElem?_eq_some_iff.mp inside).1]
  rfl

theorem getElem?_createRecord {entry : HazardRecord} (there : state.records[record]? = some entry) :
    (state.createRecord domain).records[record]? = some entry := by
  rw [createRecord, List.getElem?_append_left (List.getElem?_eq_some_iff.mp there).1]
  exact there

theorem isActive_createRecord (active : state.isActive record = true) :
    (state.createRecord domain).isActive record = true := by
  rw [isActive] at active
  cases found : state.records[record]? with
  | none =>
      rw [found] at active
      cases active
  | some entry =>
      rw [found] at active
      rw [isActive, getElem?_createRecord found]
      exact active

theorem isActive_created : (state.createRecord domain).isActive state.records.length = true := by
  rw [isActive, createRecord, List.getElem?_concat_length]
  rfl

theorem slot_createRecord (before : state.slot record index = some pointer) :
    (state.createRecord domain).slot record index = some pointer := by
  rw [slot, Option.join_eq_some_iff] at before
  obtain ⟨entry, there, inside⟩ := Option.bind_eq_some_iff.mp before
  rw [slot, getElem?_createRecord there, Option.bind_some, inside]
  rfl

theorem domainOf_createRecord (before : state.domainOf record = some index) :
    (state.createRecord domain).domainOf record = some index := by
  obtain ⟨entry, there, same⟩ := Option.map_eq_some_iff.mp before
  rw [domainOf, getElem?_createRecord there, Option.map_some, same]

theorem isHeld_iff : state.isHeld record = true ↔ ∃ holder ∈ state.holders,
    holder.record = record := by
  rw [isHeld, List.any_eq_true]
  simp only [decide_eq_true_eq]

theorem mem_protectors {slot : HazardSlot} (guards : slot ∈ state.protectors pointer) :
    state.isHeld slot.record = true ∧ state.slot slot.record slot.index = some pointer ∧
      slot.index < maxHazardPointers := by
  obtain ⟨record, -, found⟩ := List.mem_flatMap.mp guards
  by_cases held : state.isHeld record = true
  · rw [if_pos held] at found
    obtain ⟨index, inside, rfl⟩ := List.mem_map.mp found
    have both := List.mem_filter.mp inside
    exact ⟨held, of_decide_eq_true both.2, List.mem_range.mp both.1⟩
  · rw [if_neg held] at found
    cases found

end HazardState

def HazardState.Claims (state : HazardState) (record thread : Nat) : Prop :=
  ⟨record, thread⟩ ∈ state.holders ∨
    ∃ self, state.threads[thread]? = some self ∧ self.place.claims = some record

/-- A claimed record is active, and one thread claims it.  A thread has cached only a record
that it holds. -/
structure RecordsClaimed (state : HazardState) : Prop where
  one : ∀ {record first second : Nat}, state.Claims record first → state.Claims record second →
    first = second
  active : ∀ {record thread : Nat}, state.Claims record thread → state.isActive record = true
  cached : ∀ {thread : Nat} {self : HazardThread} {record : Nat},
    state.threads[thread]? = some self → self.cached = some record →
      (⟨record, thread⟩ : RecordHolder) ∈ state.holders

namespace RecordsClaimed

theorem of_same (claimed : RecordsClaimed state) (threads : next.threads = state.threads)
    (holders : next.holders = state.holders)
    (active : ∀ record, state.isActive record = true → next.isActive record = true) :
    RecordsClaimed next := by
  have same : ∀ {record thread : Nat}, next.Claims record thread → state.Claims record thread := by
    intro record thread claims
    rw [HazardState.Claims, threads, holders] at claims
    exact claims
  refine ⟨fun first second => claimed.one (same first) (same second), ?_, ?_⟩
  · exact fun claims => active _ (claimed.active (same claims))
  · intro thread self record found cached
    rw [threads] at found
    rw [holders]
    exact claimed.cached found cached

theorem setThread (claimed : RecordsClaimed state) (thread : Nat)
    (claims : ∀ record, changed.place.claims = some record → state.Claims record thread)
    (cached : ∀ record, changed.cached = some record →
      (⟨record, thread⟩ : RecordHolder) ∈ state.holders) :
    RecordsClaimed (state.setThread thread changed) := by
  have before : ∀ {record other : Nat}, (state.setThread thread changed).Claims record other →
      state.Claims record other := by
    intro record other claim
    rcases claim with holds | ⟨self, there, inside⟩
    · exact Or.inl holds
    · rcases getElem?_set_cases there with ⟨same, same'⟩ | ⟨-, there⟩
      · rw [same]
        rw [same'] at inside
        exact claims record inside
      · exact Or.inr ⟨self, there, inside⟩
  refine ⟨fun first second => claimed.one (before first) (before second), ?_, ?_⟩
  · exact fun claim => claimed.active (before claim)
  · intro other self record there inside
    rcases getElem?_set_cases there with ⟨same, same'⟩ | ⟨-, there⟩
    · rw [same]
      rw [same'] at inside
      exact cached record inside
    · exact claimed.cached there inside

theorem goTo (claimed : RecordsClaimed state) (found : state.threads[thread]? = some self)
    {place : HazardPlace} (none : place.claims = none) (retired : List RetiredNode) :
    RecordsClaimed (state.setThread thread ⟨place, self.cached, retired⟩) := by
  apply claimed.setThread thread
  · intro record claims
    cases none.symm.trans claims
  · exact fun record cached => claimed.cached found cached

theorem hold (claimed : RecordsClaimed state) (claims : state.Claims record thread) :
    RecordsClaimed (state.hold record thread) := by
  have before : ∀ {other owner : Nat}, (state.hold record thread).Claims other owner →
      state.Claims other owner := by
    intro other owner claim
    rcases claim with holds | going
    · rcases List.mem_append.mp holds with holds | new
      · exact Or.inl holds
      · cases List.mem_singleton.mp new
        exact claims
    · exact Or.inr going
  refine ⟨fun first second => claimed.one (before first) (before second), ?_, ?_⟩
  · exact fun claim => claimed.active (before claim)
  · exact fun found cached => List.mem_append_left _ (claimed.cached found cached)

theorem claim (claimed : RecordsClaimed state) (free : state.isActive record = false)
    (holders : next.holders = state.holders)
    (threads : next.threads = state.threads.set thread changed)
    (old : ∀ other, state.isActive other = true → next.isActive other = true)
    (active : next.isActive record = true)
    (place : changed.place.claims = some record)
    (cached : ∀ other, changed.cached = some other →
      (⟨other, thread⟩ : RecordHolder) ∈ state.holders) :
    RecordsClaimed next := by
  have unclaimed : ∀ {owner : Nat}, ¬state.Claims record owner := by
    intro owner claims
    cases free.symm.trans (claimed.active claims)
  have before : ∀ {other owner : Nat}, next.Claims other owner →
      (other = record ∧ owner = thread) ∨ state.Claims other owner := by
    intro other owner claim
    rcases claim with holds | ⟨self, there, inside⟩
    · rw [holders] at holds
      exact Or.inr (Or.inl holds)
    · rw [threads] at there
      rcases getElem?_set_cases there with ⟨same, same'⟩ | ⟨-, there⟩
      · rw [same', place] at inside
        exact Or.inl ⟨(Option.some.inj inside).symm, same⟩
      · exact Or.inr (Or.inr ⟨self, there, inside⟩)
  refine ⟨?_, ?_, ?_⟩
  · intro other first second claimsFirst claimsSecond
    rcases before claimsFirst with ⟨same, owner⟩ | old
    · rcases before claimsSecond with ⟨-, owner'⟩ | old
      · exact owner.trans owner'.symm
      · rw [same] at old
        exact absurd old unclaimed
    · rcases before claimsSecond with ⟨same, -⟩ | old'
      · rw [same] at old
        exact absurd old unclaimed
      · exact claimed.one old old'
  · intro other owner claims
    rcases before claims with ⟨same, -⟩ | claims
    · rw [same]
      exact active
    · exact old other (claimed.active claims)
  · intro other self held there inside
    rw [holders]
    rw [threads] at there
    rcases getElem?_set_cases there with ⟨same, same'⟩ | ⟨-, there⟩
    · rw [same]
      rw [same'] at inside
      exact cached held inside
    · exact claimed.cached there inside

theorem not_held_erase (claimed : RecordsClaimed state)
    (sole : state.isActive record = true →
      (state.holders.filter fun holder => holder.record = record) = [⟨record, thread⟩]) :
    ∀ holder ∈ state.holders.erase ⟨record, thread⟩, holder.record ≠ record := by
  intro holder left same
  have before : holder ∈ state.holders := List.mem_of_mem_erase left
  have active : state.isActive record = true := by
    rw [← same]
    exact claimed.active (Or.inl before)
  have one := sole active
  have held : (⟨record, thread⟩ : RecordHolder) ∈ state.holders :=
    List.mem_of_mem_filter (one ▸ List.mem_singleton_self _)
  have split := (List.perm_cons_erase held).filter fun other => other.record = record
  rw [one, List.filter_cons_of_pos (by simp)] at split
  have none : holder ∈ (state.holders.erase ⟨record, thread⟩).filter fun other =>
      other.record = record := List.mem_filter.mpr ⟨left, decide_eq_true same⟩
  rw [List.nil_perm.mp ((List.perm_cons _).mp split)] at none
  cases none

theorem release (claimed : RecordsClaimed state) (found : state.threads[thread]? = some self)
    (sole : state.isActive record = true →
      (state.holders.filter fun holder => holder.record = record) = [⟨record, thread⟩]) :
    RecordsClaimed (((state.setActive record false).letGo record thread).setThread thread
      { self with
        place := .idle
        cached := if self.cached = some record then none else self.cached }) := by
  have unheld := claimed.not_held_erase sole
  have before : ∀ {other owner : Nat}, HazardState.Claims
      (((state.setActive record false).letGo record thread).setThread thread
        { self with
          place := .idle
          cached := if self.cached = some record then none else self.cached }) other owner →
      state.Claims other owner ∧ record ≠ other := by
    intro other owner claims
    rcases claims with holds | ⟨place, there, inside⟩
    · exact ⟨Or.inl (List.mem_of_mem_erase holds), (unheld _ holds).symm⟩
    · rcases getElem?_set_cases there with ⟨-, same⟩ | ⟨different, there⟩
      · rw [same] at inside
        cases inside
      · have claims : state.Claims other owner := Or.inr ⟨place, there, inside⟩
        refine ⟨claims, ?_⟩
        rintro rfl
        have held : (⟨record, thread⟩ : RecordHolder) ∈ state.holders :=
          List.mem_of_mem_filter (sole (claimed.active claims) ▸ List.mem_singleton_self _)
        exact different (claimed.one claims (Or.inl held))
  refine ⟨fun first second => claimed.one (before first).1 (before second).1, ?_, ?_⟩
  · intro other owner claims
    have active := claimed.active (before claims).1
    exact (HazardState.isActive_setActive_of_ne (before claims).2 false).trans active
  · intro owner place held there inside
    rcases getElem?_set_cases there with ⟨same, same'⟩ | ⟨different, there⟩
    · rw [same'] at inside
      change (if self.cached = some record then none else self.cached) = some held at inside
      split_ifs at inside with own
      rw [same]
      apply (List.mem_erase_of_ne ?_).mpr (claimed.cached found inside)
      intro equal
      rw [inside, (RecordHolder.mk.inj equal).1] at own
      exact own rfl
    · apply (List.mem_erase_of_ne ?_).mpr (claimed.cached there inside)
      intro equal
      exact different (RecordHolder.mk.inj equal).2

end RecordsClaimed

/-! ## What guards a pointer -/

def ScanSees (guards : Nat → List HazardSlot) (self : HazardThread) : HazardPlace → Prop
  | .readActive _ done records =>
      ∀ node ∈ self.retired[done]?, ∀ slot ∈ guards node.pointer, slot.record ∈ records
  | .readPointer _ done record index records =>
      ∀ node ∈ self.retired[done]?, ∀ slot ∈ guards node.pointer,
        (slot.record = record ∧ index ≤ slot.index) ∨ slot.record ∈ records
  | .reclaim _ done => ∀ node ∈ self.retired[done]?, guards node.pointer = []
  | _ => True

theorem ScanSees.fewer {guards left : Nat → List HazardSlot}
    (fewer : ∀ node ∈ self.retired, ∀ slot ∈ left node.pointer, slot ∈ guards node.pointer) :
    ∀ {place : HazardPlace}, ScanSees guards self place → ScanSees left self place := by
  intro place sees
  cases place with
  | readActive domain done records =>
      intro node there slot inside
      exact sees node there slot (fewer node (List.mem_of_getElem? there) slot inside)
  | readPointer domain done record index records =>
      intro node there slot inside
      exact sees node there slot (fewer node (List.mem_of_getElem? there) slot inside)
  | reclaim domain done =>
      intro node there
      apply List.eq_nil_iff_forall_not_mem.mpr
      intro slot inside
      have guarded := fewer node (List.mem_of_getElem? there) slot inside
      rw [sees node there] at guarded
      cases guarded
  | idle => trivial
  | waitLock domain => trivial
  | search domain records => trivial
  | exchange domain record records => trivial
  | clear domain record => trivial
  | unlock domain record => trivial
  | unprotect record index => trivial
  | deactivate record => trivial
  | readHead domain done => trivial

/-- Every record is in the list of its domain.  A guard is a slot of a held record that holds
the pointer, in the domain that the pointer was retired to, and no scan has passed it. -/
structure GuardsKept (state : HazardState) : Prop where
  listed : ∀ {record domain : Nat}, state.domainOf record = some domain →
    record ∈ state.lists domain
  held : ∀ {pointer : Nat}, ∀ slot ∈ state.guards pointer, state.isHeld slot.record = true
  holds : ∀ {pointer : Nat}, ∀ slot ∈ state.guards pointer,
    state.slot slot.record slot.index = some pointer
  bounded : ∀ {pointer : Nat}, ∀ slot ∈ state.guards pointer, slot.index < maxHazardPointers
  nodes : ∀ self ∈ state.threads, ∀ node ∈ self.retired, ∀ slot ∈ state.guards node.pointer,
    state.domainOf slot.record = some node.domain
  scans : ∀ self ∈ state.threads, ScanSees state.guards self self.place

namespace GuardsKept

theorem fewer (kept : GuardsKept state)
    (threads : next.threads = state.threads)
    (listed : ∀ {record domain : Nat}, next.domainOf record = some domain →
      record ∈ next.lists domain)
    (domains : ∀ {record domain : Nat}, state.domainOf record = some domain →
      next.domainOf record = some domain)
    (fewer : ∀ pointer, ∀ slot ∈ next.guards pointer, slot ∈ state.guards pointer)
    (held : ∀ {pointer : Nat}, ∀ slot ∈ next.guards pointer, next.isHeld slot.record = true)
    (holds : ∀ {pointer : Nat}, ∀ slot ∈ next.guards pointer,
      next.slot slot.record slot.index = some pointer) :
    GuardsKept next where
  listed := listed
  held := held
  holds := holds
  bounded := fun slot inside => kept.bounded slot (fewer _ slot inside)
  nodes := by
    rw [threads]
    intro self member node inside slot guards
    exact domains (kept.nodes self member node inside slot (fewer _ slot guards))
  scans := by
    rw [threads]
    intro self member
    exact (kept.scans self member).fewer fun node _ => fewer node.pointer

theorem setThread (kept : GuardsKept state) (thread : Nat)
    (nodes : ∀ node ∈ changed.retired, ∀ slot ∈ state.guards node.pointer,
      state.domainOf slot.record = some node.domain)
    (sees : ScanSees state.guards changed changed.place) :
    GuardsKept (state.setThread thread changed) where
  listed := kept.listed
  held := kept.held
  holds := kept.holds
  bounded := kept.bounded
  nodes := forall_mem_set kept.nodes nodes thread
  scans := forall_mem_set kept.scans sees thread

theorem goTo (kept : GuardsKept state) (found : state.threads[thread]? = some self)
    (part : ∀ node ∈ changed.retired, node ∈ self.retired)
    (sees : ScanSees state.guards changed changed.place) :
    GuardsKept (state.setThread thread changed) := by
  apply kept.setThread thread ?_ sees
  intro node inside
  exact kept.nodes self (List.mem_of_getElem? found) node (part node inside)

theorem setSlot (kept : GuardsKept state) (record index : Nat) (held : Option Nat) :
    GuardsKept (state.setSlot record index held) := by
  have part : ∀ pointer, ∀ slot ∈ (state.setSlot record index held).guards pointer,
      slot ∈ state.guards pointer ∧ (slot = ⟨record, index⟩ → held = some pointer) := by
    intro pointer slot inside
    change slot ∈ (if held = some pointer then _ else _) at inside
    split_ifs at inside with same
    · exact ⟨inside, fun _ => same⟩
    · have both := List.mem_filter.mp inside
      exact ⟨both.1, fun equal => absurd equal (of_decide_eq_true both.2)⟩
  refine kept.fewer rfl ?_ ?_ ?_ ?_ ?_
  · intro other domain inside
    rw [HazardState.domainOf_setSlot] at inside
    exact kept.listed inside
  · intro other domain inside
    rwa [HazardState.domainOf_setSlot]
  · exact fun pointer slot inside => (part pointer slot inside).1
  · exact fun slot inside => kept.held slot (part _ slot inside).1
  · intro pointer slot inside
    have both := part pointer slot inside
    have before := kept.holds slot both.1
    by_cases same : slot = ⟨record, index⟩
    · rw [same] at before
      rw [same, HazardState.slot_setSlot_self before]
      exact both.2 same
    · rw [HazardState.slot_setSlot_of_ne same]
      exact before

theorem clearSlots (kept : GuardsKept state) (record : Nat) :
    GuardsKept (state.clearSlots record) := by
  have part : ∀ pointer, ∀ slot ∈ (state.clearSlots record).guards pointer,
      slot ∈ state.guards pointer ∧ record ≠ slot.record := by
    intro pointer slot inside
    have both := List.mem_filter.mp inside
    exact ⟨both.1, Ne.symm (of_decide_eq_true both.2)⟩
  refine kept.fewer rfl ?_ ?_ ?_ ?_ ?_
  · intro other domain inside
    rw [HazardState.domainOf_clearSlots] at inside
    exact kept.listed inside
  · intro other domain inside
    rwa [HazardState.domainOf_clearSlots]
  · exact fun pointer slot inside => (part pointer slot inside).1
  · exact fun slot inside => kept.held slot (part _ slot inside).1
  · intro pointer slot inside
    rw [HazardState.slot_clearSlots_of_ne (part pointer slot inside).2]
    exact kept.holds slot (part pointer slot inside).1

theorem setActive (kept : GuardsKept state) (record : Nat) (active : Bool) :
    GuardsKept (state.setActive record active) := by
  refine kept.fewer rfl ?_ ?_ ?_ ?_ ?_
  · intro other domain inside
    rw [HazardState.domainOf_setActive] at inside
    exact kept.listed inside
  · intro other domain inside
    rwa [HazardState.domainOf_setActive]
  · exact fun _ _ inside => inside
  · exact fun slot inside => kept.held slot inside
  · intro pointer slot inside
    rw [HazardState.slot_setActive]
    exact kept.holds slot inside

theorem letGo (kept : GuardsKept state) (record thread : Nat) :
    GuardsKept (state.letGo record thread) := by
  refine kept.fewer rfl ?_ ?_ ?_ ?_ ?_
  · exact kept.listed
  · exact fun inside => inside
  · exact fun pointer slot inside => List.mem_of_mem_filter inside
  · exact fun slot inside => (List.mem_filter.mp inside).2
  · exact fun slot inside => kept.holds slot (List.mem_of_mem_filter inside)

theorem hold (kept : GuardsKept state) (record thread : Nat) :
    GuardsKept (state.hold record thread) := by
  refine kept.fewer rfl ?_ ?_ ?_ ?_ ?_
  · exact kept.listed
  · exact fun inside => inside
  · exact fun _ _ inside => inside
  · intro pointer slot inside
    rw [HazardState.isHeld, HazardState.hold, List.any_append]
    exact Bool.or_eq_true_iff.mpr (Or.inl (kept.held slot inside))
  · exact fun slot inside => kept.holds slot inside

theorem createRecord (kept : GuardsKept state) (domain : Nat) :
    GuardsKept (state.createRecord domain) := by
  refine kept.fewer rfl ?_ ?_ ?_ ?_ ?_
  · intro other place inside
    change other ∈ Function.update state.lists domain _ place
    obtain ⟨entry, there, same⟩ := Option.map_eq_some_iff.mp inside
    by_cases old : other < state.records.length
    · rw [HazardState.createRecord, List.getElem?_append_left old] at there
      have listed : other ∈ state.lists place :=
        kept.listed (Option.map_eq_some_iff.mpr ⟨entry, there, same⟩)
      by_cases here : place = domain
      · subst here
        rw [Function.update_self]
        exact List.mem_cons_of_mem _ listed
      · rw [Function.update_of_ne here]
        exact listed
    · have last : other = state.records.length := by
        have bound := (List.getElem?_eq_some_iff.mp there).1
        simp only [HazardState.createRecord, List.length_append, List.length_singleton] at bound
        omega
      rw [last, HazardState.createRecord, List.getElem?_concat_length] at there
      cases there
      cases same
      rw [last, Function.update_self]
      exact List.mem_cons_self
  · exact HazardState.domainOf_createRecord
  · exact fun _ _ inside => inside
  · exact fun slot inside => kept.held slot inside
  · exact fun slot inside => HazardState.slot_createRecord (kept.holds slot inside)

theorem noteRetired (kept : GuardsKept state)
    (fresh : ∀ self ∈ state.threads, ∀ node ∈ self.retired, node.pointer ≠ pointer) :
    GuardsKept (state.noteRetired pointer) := by
  have cases : ∀ {other : Nat}, ∀ slot ∈ (state.noteRetired pointer).guards other,
      (other = pointer ∧ slot ∈ state.protectors pointer) ∨ slot ∈ state.guards other := by
    intro other slot inside
    change slot ∈ Function.update state.guards pointer (state.protectors pointer) other at inside
    by_cases same : other = pointer
    · subst same
      rw [Function.update_self] at inside
      exact Or.inl ⟨rfl, inside⟩
    · rw [Function.update_of_ne same] at inside
      exact Or.inr inside
  have old : ∀ self ∈ state.threads, ∀ node ∈ self.retired,
      ∀ slot ∈ (state.noteRetired pointer).guards node.pointer,
        slot ∈ state.guards node.pointer := by
    intro self member node inside slot guards
    rcases cases slot guards with ⟨same, -⟩ | old
    · exact absurd same (fresh self member node inside)
    · exact old
  refine ⟨kept.listed, ?_, ?_, ?_, ?_, ?_⟩
  · intro other slot guards
    rcases cases slot guards with ⟨-, new⟩ | old
    · exact (HazardState.mem_protectors new).1
    · exact kept.held slot old
  · intro other slot guards
    rcases cases slot guards with ⟨same, new⟩ | old
    · rw [same]
      exact (HazardState.mem_protectors new).2.1
    · exact kept.holds slot old
  · intro other slot guards
    rcases cases slot guards with ⟨-, new⟩ | old
    · exact (HazardState.mem_protectors new).2.2
    · exact kept.bounded slot old
  · intro self member node inside slot guards
    exact kept.nodes self member node inside slot (old self member node inside slot guards)
  · exact fun self member => (kept.scans self member).fewer (old self member)

end GuardsKept

def HazardState.disposed (state : HazardState) : List Nat :=
  state.freed.map FreedPointer.pointer ++
    state.threads.flatMap fun self => self.retired.map RetiredNode.pointer

/-- Each of them was retired and comes once, and nothing guarded what was freed. -/
structure FreedOnce (state : HazardState) : Prop where
  distinct : state.disposed.Nodup
  retired : ∀ pointer ∈ state.disposed, pointer ∈ state.retirements
  unguarded : ∀ freed ∈ state.freed, freed.guards = []

namespace FreedOnce

theorem of_perm (once : FreedOnce state) (disposed : next.disposed.Perm state.disposed)
    (retirements : next.retirements = state.retirements)
    (unguarded : ∀ freed ∈ next.freed, freed.guards = []) : FreedOnce next where
  distinct := disposed.nodup_iff.mpr once.distinct
  retired := by
    intro pointer member
    rw [retirements]
    exact once.retired pointer (disposed.mem_iff.mp member)
  unguarded := unguarded

theorem goTo (once : FreedOnce state) (found : state.threads[thread]? = some self)
    (same : changed.retired = self.retired) : FreedOnce (state.setThread thread changed) := by
  obtain ⟨others, before, after⟩ :=
    flatMap_set_perm (fun self => self.retired.map RetiredNode.pointer) found changed
  refine once.of_perm ?_ rfl once.unguarded
  apply List.Perm.append_left
  rw [same] at after
  exact after.trans before.symm

theorem fresh (once : FreedOnce state) (fresh : pointer ∉ state.retirements) :
    ∀ self ∈ state.threads, ∀ node ∈ self.retired, node.pointer ≠ pointer := by
  intro self member node inside same
  apply fresh
  rw [← same]
  apply once.retired
  apply List.mem_append_right
  exact List.mem_flatMap.mpr ⟨self, member, List.mem_map_of_mem inside⟩

theorem push (once : FreedOnce state) (found : state.threads[thread]? = some self)
    (fresh : pointer ∉ state.retirements) (node : RetiredNode) (named : node.pointer = pointer)
    (retired : changed.retired = node :: self.retired) :
    FreedOnce ((state.noteRetired pointer).setThread thread changed) := by
  obtain ⟨others, before, after⟩ :=
    flatMap_set_perm (fun self => self.retired.map RetiredNode.pointer) found changed
  have longer : ((state.noteRetired pointer).setThread thread changed).disposed.Perm
      (pointer :: state.disposed) := by
    rw [retired, List.map_cons, named, List.cons_append] at after
    exact ((after.trans (before.symm.cons pointer)).append_left _).trans List.perm_middle
  refine ⟨?_, ?_, once.unguarded⟩
  · apply longer.nodup_iff.mpr
    exact List.nodup_cons.mpr ⟨fun member => fresh (once.retired pointer member), once.distinct⟩
  · intro other member
    apply List.mem_append.mpr
    rcases List.mem_cons.mp (longer.mem_iff.mp member) with same | old
    · exact Or.inr (List.mem_singleton.mpr same)
    · exact Or.inl (once.retired other old)

theorem reclaimNow (once : FreedOnce state) (fresh : pointer ∉ state.retirements)
    (none : state.protectors pointer = []) :
    FreedOnce ((state.noteRetired pointer).reclaim pointer) := by
  have longer : ((state.noteRetired pointer).reclaim pointer).disposed.Perm
      (pointer :: state.disposed) := by
    change (List.map FreedPointer.pointer (state.freed ++ [⟨pointer, _⟩]) ++ _).Perm _
    rw [List.map_append, List.append_assoc]
    exact List.perm_middle
  refine ⟨?_, ?_, ?_⟩
  · apply longer.nodup_iff.mpr
    exact List.nodup_cons.mpr ⟨fun member => fresh (once.retired pointer member), once.distinct⟩
  · intro other member
    apply List.mem_append.mpr
    rcases List.mem_cons.mp (longer.mem_iff.mp member) with same | old
    · exact Or.inr (List.mem_singleton.mpr same)
    · exact Or.inl (once.retired other old)
  · intro freed member
    rcases List.mem_append.mp member with old | new
    · exact once.unguarded freed old
    · rw [List.mem_singleton.mp new]
      change Function.update state.guards pointer (state.protectors pointer) pointer = []
      rw [Function.update_self]
      exact none

theorem reclaim (once : FreedOnce state) (found : state.threads[thread]? = some self)
    {node : RetiredNode} (there : self.retired[done]? = some node)
    (none : state.guards node.pointer = []) (rest : changed.retired = self.retired.eraseIdx done) :
    FreedOnce ((state.reclaim node.pointer).setThread thread changed) := by
  obtain ⟨others, before, after⟩ :=
    flatMap_set_perm (fun self => self.retired.map RetiredNode.pointer) found changed
  have inside := (List.getElem?_eq_some_iff.mp there).1
  have split : (self.retired.map RetiredNode.pointer).Perm
      (node.pointer :: (self.retired.eraseIdx done).map RetiredNode.pointer) := by
    have erased := (List.getElem_cons_eraseIdx_perm inside).map RetiredNode.pointer
    rw [(List.getElem?_eq_some_iff.mp there).2] at erased
    exact erased.symm
  have same : ((state.reclaim node.pointer).setThread thread changed).disposed.Perm
      state.disposed := by
    change (List.map FreedPointer.pointer (state.freed ++ [⟨node.pointer, _⟩]) ++ _).Perm _
    rw [List.map_append, List.append_assoc]
    apply List.Perm.append_left
    rw [rest] at after
    exact (after.cons node.pointer).trans
      ((split.symm.append_right others).trans before.symm)
  refine once.of_perm same rfl ?_
  intro freed member
  rcases List.mem_append.mp member with old | new
  · exact once.unguarded freed old
  · rw [List.mem_singleton.mp new]
    exact none

end FreedOnce

def HazardPlace.pending : HazardPlace → List Nat
  | .search _ records => records
  | .exchange _ record records => record :: records
  | _ => []

/-- They exist, as do those of the lists. -/
structure RecordsThere (state : HazardState) : Prop where
  lists : ∀ domain, ∀ record ∈ state.lists domain, record < state.records.length
  places : ∀ self ∈ state.threads, ∀ record ∈ self.place.pending, record < state.records.length

namespace RecordsThere

theorem of_same (records : RecordsThere state) (threads : next.threads = state.threads)
    (lists : next.lists = state.lists) (same : next.records.length = state.records.length) :
    RecordsThere next where
  lists := by
    rw [lists, same]
    exact records.lists
  places := by
    rw [threads, same]
    exact records.places

theorem goTo (records : RecordsThere state) (thread : Nat)
    (pending : ∀ record ∈ changed.place.pending, record < state.records.length) :
    RecordsThere (state.setThread thread changed) where
  lists := records.lists
  places := forall_mem_set records.places pending thread

theorem create (records : RecordsThere state) (domain : Nat) :
    RecordsThere (state.createRecord domain) where
  lists := by
    intro place record member
    rw [HazardState.createRecord, List.length_append, List.length_singleton]
    change record ∈ Function.update state.lists domain _ place at member
    by_cases here : place = domain
    · subst here
      rw [Function.update_self] at member
      rcases List.mem_cons.mp member with last | old
      · omega
      · exact Nat.lt_succ_of_lt (records.lists place record old)
    · rw [Function.update_of_ne here] at member
      exact Nat.lt_succ_of_lt (records.lists place record member)
  places := by
    intro self member record pending
    rw [HazardState.createRecord, List.length_append, List.length_singleton]
    exact Nat.lt_succ_of_lt (records.places self member record pending)

end RecordsThere

/-! ## The steps -/

structure HazardKept (state : HazardState) : Prop where
  claimed : RecordsClaimed state
  guarded : GuardsKept state
  once : FreedOnce state
  records : RecordsThere state

namespace HazardKept

theorem law (kept : HazardKept state) : HazardLaw state where
  owned := by
    intro first firstHolds second secondHolds same
    apply kept.claimed.one (Or.inl firstHolds)
    rw [same]
    exact Or.inl secondHolds
  once := (List.nodup_append.mp kept.once.distinct).1
  unguarded := kept.once.unguarded

theorem active_of_guard (kept : HazardKept state) {slot : HazardSlot}
    (guards : slot ∈ state.guards pointer) : state.isActive slot.record = true := by
  obtain ⟨holder, holds, same⟩ := HazardState.isHeld_iff.mp (kept.guarded.held slot guards)
  rw [← same]
  exact kept.claimed.active (Or.inl holds)

variable (kept : HazardKept state)
include kept

theorem setLocked (domain : Nat) (locked : Bool) : HazardKept (state.setLocked domain locked) where
  claimed := kept.claimed.of_same rfl rfl fun _ active => active
  guarded := kept.guarded.fewer rfl kept.guarded.listed (fun same => same)
    (fun _ _ inside => inside) kept.guarded.held kept.guarded.holds
  once := kept.once.of_perm .rfl rfl kept.once.unguarded
  records := kept.records.of_same rfl rfl rfl

theorem setSlot (record index : Nat) (held : Option Nat) :
    HazardKept (state.setSlot record index held) where
  claimed := kept.claimed.of_same rfl rfl fun other active =>
    (HazardState.isActive_setSlot other held).trans active
  guarded := kept.guarded.setSlot record index held
  once := kept.once.of_perm .rfl rfl kept.once.unguarded
  records := kept.records.of_same rfl rfl (List.length_modify _ _ _)

theorem hold (claims : state.Claims record thread) : HazardKept (state.hold record thread) where
  claimed := kept.claimed.hold claims
  guarded := kept.guarded.hold record thread
  once := kept.once.of_perm .rfl rfl kept.once.unguarded
  records := kept.records.of_same rfl rfl rfl

variable (found : state.threads[thread]? = some self)
include found

theorem goTo {place : HazardPlace} (none : place.claims = none)
    (pending : ∀ record ∈ place.pending, record < state.records.length)
    (sees : ScanSees state.guards self place) :
    HazardKept (state.goTo thread self place) where
  claimed := kept.claimed.goTo found none self.retired
  guarded := kept.guarded.goTo found (fun _ inside => inside) sees
  once := kept.once.goTo found rfl
  records := kept.records.goTo thread pending

theorem scanFrom (domain done : Nat) : HazardKept (state.scanFrom thread self domain done) := by
  rw [HazardState.scanFrom]
  split_ifs
  · exact kept.goTo found rfl nofun trivial
  · exact kept.goTo found rfl nofun trivial

theorem exchange (free : state.isActive record = false) (domain : Nat)
    (inside : record < state.records.length) :
    HazardKept ((state.setActive record true).goTo thread self (.clear domain record)) where
  claimed := by
    refine kept.claimed.claim free rfl rfl ?_ ?_ rfl ?_
    · exact fun other active => HazardState.isActive_setActive_true active
    · change (state.setActive record true).isActive record = true
      rw [HazardState.isActive, HazardState.setActive, HazardState.records_modify, if_pos rfl,
        List.getElem?_eq_getElem inside]
      rfl
    · exact fun other cached => kept.claimed.cached found cached
  guarded := (kept.guarded.setActive record true).goTo found (fun _ inside => inside) trivial
  once := by
    have same : FreedOnce (state.setActive record true) :=
      kept.once.of_perm .rfl rfl kept.once.unguarded
    exact same.goTo found rfl
  records := by
    have same : RecordsThere (state.setActive record true) :=
      kept.records.of_same rfl rfl (List.length_modify _ _ _)
    exact same.goTo thread nofun

theorem create (domain : Nat) :
    HazardKept ((state.createRecord domain).goTo thread self
      (.unlock domain state.records.length)) where
  claimed := by
    refine kept.claimed.claim ?_ rfl rfl ?_ HazardState.isActive_created rfl ?_
    · rw [HazardState.isActive, List.getElem?_eq_none (Nat.le_refl _)]
      rfl
    · exact fun other active => HazardState.isActive_createRecord active
    · exact fun other cached => kept.claimed.cached found cached
  guarded := (kept.guarded.createRecord domain).goTo found (fun _ inside => inside) trivial
  once := by
    have same : FreedOnce (state.createRecord domain) :=
      kept.once.of_perm .rfl rfl kept.once.unguarded
    exact same.goTo found rfl
  records := (kept.records.create domain).goTo thread nofun

theorem clear (place : self.place = .clear domain record) :
    HazardKept ((state.clearSlots record).goTo thread self (.unlock domain record)) where
  claimed := by
    have claims : state.Claims record thread :=
      Or.inr ⟨self, found, by rw [place, HazardPlace.claims]⟩
    have cleared : RecordsClaimed (state.clearSlots record) :=
      kept.claimed.of_same rfl rfl fun other active =>
        (HazardState.isActive_clearSlots other).trans active
    apply cleared.setThread thread
    · intro other same
      cases same
      exact claims
    · exact fun other cached => kept.claimed.cached found cached
  guarded := (kept.guarded.clearSlots record).goTo found (fun _ inside => inside) trivial
  once := by
    have same : FreedOnce (state.clearSlots record) :=
      kept.once.of_perm .rfl rfl kept.once.unguarded
    exact same.goTo found rfl
  records := by
    have same : RecordsThere (state.clearSlots record) :=
      kept.records.of_same rfl rfl (List.length_modify _ _ _)
    exact same.goTo thread nofun

theorem unlock (place : self.place = .unlock domain record) :
    HazardKept (((state.setLocked domain false).hold record thread).setThread thread
      { self with place := .idle, cached := some record }) := by
  have claims : (state.setLocked domain false).Claims record thread :=
    Or.inr ⟨self, found, by rw [place, HazardPlace.claims]⟩
  have held := (kept.setLocked domain false).hold claims
  refine ⟨?_, held.guarded.goTo found (fun _ inside => inside) trivial,
    held.once.goTo found rfl, held.records.goTo thread nofun⟩
  apply held.claimed.setThread thread
  · exact fun other same => nomatch same
  · intro other same
    cases same
    exact List.mem_append_right _ (List.mem_singleton_self _)

theorem deactivate
    (sole : state.isActive record = true →
      (state.holders.filter fun holder => holder.record = record) = [⟨record, thread⟩]) :
    HazardKept (((state.setActive record false).letGo record thread).setThread thread
      { self with
        place := .idle
        cached := if self.cached = some record then none else self.cached }) where
  claimed := kept.claimed.release found sole
  guarded := ((kept.guarded.setActive record false).letGo record thread).goTo found
    (fun _ inside => inside) trivial
  once := by
    have same : FreedOnce ((state.setActive record false).letGo record thread) :=
      kept.once.of_perm .rfl rfl kept.once.unguarded
    exact same.goTo found rfl
  records := by
    have same : RecordsThere ((state.setActive record false).letGo record thread) :=
      kept.records.of_same rfl rfl (List.length_modify _ _ _)
    exact same.goTo thread nofun

theorem readHead (met : ∀ node ∈ self.retired[done]?, node.domain = domain) :
    HazardKept (state.goTo thread self (.readActive domain done (state.lists domain))) := by
  refine kept.goTo found rfl nofun ?_
  intro node there slot guards
  have same := kept.guarded.nodes self (List.mem_of_getElem? found) node
    (List.mem_of_getElem? there) slot guards
  rw [met node there] at same
  exact kept.guarded.listed same

theorem readActive (place : self.place = .readActive domain done (record :: rest)) :
    HazardKept (if state.isActive record then
      state.goTo thread self (.readPointer domain done record 0 rest)
      else state.goTo thread self (.readActive domain done rest)) := by
  have sees := kept.guarded.scans self (List.mem_of_getElem? found)
  rw [place] at sees
  split_ifs with active
  · refine kept.goTo found rfl nofun ?_
    intro node there slot guards
    rcases List.mem_cons.mp (sees node there slot guards) with same | later
    · exact Or.inl ⟨same, Nat.zero_le _⟩
    · exact Or.inr later
  · refine kept.goTo found rfl nofun ?_
    intro node there slot guards
    rcases List.mem_cons.mp (sees node there slot guards) with same | later
    · rw [← same] at active
      exact absurd (kept.active_of_guard guards) active
    · exact later

theorem endReading (place : self.place = .readActive domain done []) :
    HazardKept (state.goTo thread self (.reclaim domain done)) := by
  have sees := kept.guarded.scans self (List.mem_of_getElem? found)
  rw [place] at sees
  refine kept.goTo found rfl nofun ?_
  intro node there
  apply List.eq_nil_iff_forall_not_mem.mpr
  intro slot guards
  cases sees node there slot guards

theorem readPointer (place : self.place = .readPointer domain done record index rest)
    (different : state.slot record index ≠ (self.retired[done]?).map RetiredNode.pointer) :
    HazardKept (if index + 1 < maxHazardPointers then
      state.goTo thread self (.readPointer domain done record (index + 1) rest)
      else state.goTo thread self (.readActive domain done rest)) := by
  have sees := kept.guarded.scans self (List.mem_of_getElem? found)
  rw [place] at sees
  have later : ∀ node ∈ self.retired[done]?, ∀ slot ∈ state.guards node.pointer,
      (slot.record = record ∧ index + 1 ≤ slot.index) ∨ slot.record ∈ rest := by
    intro node there slot guards
    rcases sees node there slot guards with ⟨same, above⟩ | later
    · refine Or.inl ⟨same, Nat.lt_of_le_of_ne above ?_⟩
      rintro rfl
      have holds := kept.guarded.holds slot guards
      rw [same] at holds
      exact different (holds.trans (congrArg (Option.map RetiredNode.pointer) there).symm)
    · exact Or.inr later
  split_ifs with more
  · exact kept.goTo found rfl nofun later
  · refine kept.goTo found rfl nofun ?_
    intro node there slot guards
    rcases later node there slot guards with ⟨-, above⟩ | later
    · have bounded := kept.guarded.bounded slot guards
      omega
    · exact later

theorem reclaim {node : RetiredNode} (place : self.place = .reclaim domain done)
    (there : self.retired[done]? = some node) :
    HazardKept ((state.reclaim node.pointer).scanFrom thread
      { self with retired := self.retired.eraseIdx done } domain done) := by
  have sees := kept.guarded.scans self (List.mem_of_getElem? found)
  rw [place] at sees
  have freed : ∀ following : HazardPlace, following.claims = none → following.pending = [] →
      (∀ guards, ScanSees guards { self with retired := self.retired.eraseIdx done } following) →
        HazardKept ((state.reclaim node.pointer).goTo thread
          { self with retired := self.retired.eraseIdx done } following) := by
    intro following claims pending sees'
    have same : RecordsClaimed (state.reclaim node.pointer) :=
      kept.claimed.of_same rfl rfl fun _ active => active
    have guards : GuardsKept (state.reclaim node.pointer) :=
      kept.guarded.fewer rfl kept.guarded.listed (fun same => same)
        (fun _ _ inside => inside) kept.guarded.held kept.guarded.holds
    have records : RecordsThere (state.reclaim node.pointer) := kept.records.of_same rfl rfl rfl
    refine ⟨same.goTo found claims _, ?_, kept.once.reclaim found there (sees node there) rfl, ?_⟩
    · exact guards.goTo found (fun _ inside => List.mem_of_mem_eraseIdx inside) (sees' _)
    · apply records.goTo thread
      change ∀ record ∈ following.pending, _
      rw [pending]
      exact nofun
  rw [HazardState.scanFrom]
  split_ifs
  · exact freed _ rfl rfl fun _ => trivial
  · exact freed _ rfl rfl fun _ => trivial

theorem search {records : List Nat} (place : self.place = .search domain records)
    (taken : state.step thread self granted (.search domain records) = some next) :
    HazardKept next := by
  have pending := kept.records.places self (List.mem_of_getElem? found)
  rw [place] at pending
  cases records with
  | nil =>
      rw [HazardState.step] at taken
      split_ifs at taken
      · cases taken
        exact kept.create found domain
      · cases taken
        exact (kept.setLocked domain false).goTo found rfl nofun trivial
  | cons record rest =>
      rw [HazardState.step] at taken
      split_ifs at taken
      · cases taken
        refine kept.goTo found rfl ?_ trivial
        exact fun other inside => pending other (List.mem_cons_of_mem _ inside)
      · cases taken
        exact kept.goTo found rfl pending trivial

theorem step (met : KeepsPlaceHazards state thread self self.place)
    (taken : state.step thread self granted self.place = some next) : HazardKept next := by
  cases place : self.place with
  | idle =>
      rw [place] at taken
      cases taken
      exact kept
  | waitLock domain =>
      rw [place, HazardState.step] at taken
      split_ifs at taken
      cases taken
      exact (kept.setLocked domain true).goTo found rfl (kept.records.lists domain) trivial
  | search domain records =>
      rw [place] at taken
      exact kept.search found place taken
  | exchange domain record rest =>
      have pending := kept.records.places self (List.mem_of_getElem? found)
      rw [place] at taken pending
      rw [HazardState.step] at taken
      split_ifs at taken with active
      · cases taken
        refine kept.goTo found rfl ?_ trivial
        exact fun other inside => pending other (List.mem_cons_of_mem _ inside)
      · cases taken
        exact kept.exchange found (Bool.eq_false_iff.mpr active) domain
          (pending record List.mem_cons_self)
  | clear domain record =>
      rw [place] at taken
      cases taken
      exact kept.clear found place
  | unlock domain record =>
      rw [place] at taken
      cases taken
      exact kept.unlock found place
  | unprotect record index =>
      rw [place] at taken
      cases taken
      have set := kept.setSlot record index none
      by_cases more : index + 1 < maxHazardPointers
      · rw [if_pos more]
        exact set.goTo found rfl nofun trivial
      · rw [if_neg more]
        exact set.goTo found rfl nofun trivial
  | deactivate record =>
      rw [place] at taken met
      cases taken
      exact kept.deactivate found met
  | readHead domain done =>
      rw [place] at taken met
      cases taken
      exact kept.readHead found met
  | readActive domain done records =>
      rw [place] at taken
      cases records with
      | nil =>
          cases taken
          exact kept.endReading found place
      | cons record rest =>
          have seen := kept.readActive found place
          rw [HazardState.step] at taken
          split_ifs at taken seen
          · cases taken
            exact seen
          · cases taken
            exact seen
  | readPointer domain done record index rest =>
      rw [place, HazardState.step] at taken
      split_ifs at taken with hazardous more
      · cases taken
        exact kept.scanFrom found domain (done + 1)
      · have seen := kept.readPointer found place hazardous
        rw [if_pos more] at seen
        cases taken
        exact seen
      · have seen := kept.readPointer found place hazardous
        rw [if_neg more] at seen
        cases taken
        exact seen
  | reclaim domain done =>
      rw [place] at taken
      obtain ⟨node, there, same⟩ := Option.map_eq_some_iff.mp taken
      rw [← same]
      exact kept.reclaim found place there

theorem push (fresh : pointer ∉ state.retirements)
    (met : ∀ slot ∈ state.protectors pointer, state.domainOf slot.record = some domain)
    {place : HazardPlace} (claims : place.claims = none) (pending : place.pending = [])
    (sees : ∀ guards self, ScanSees guards self place) :
    HazardKept ((state.noteRetired pointer).setThread thread
      { self with place := place, retired := ⟨pointer, domain⟩ :: self.retired }) where
  claimed := by
    have same : RecordsClaimed (state.noteRetired pointer) :=
      kept.claimed.of_same rfl rfl fun _ active => active
    exact same.goTo found claims _
  guarded := by
    have noted := kept.guarded.noteRetired (kept.once.fresh fresh)
    apply noted.setThread thread ?_ (sees _ _)
    intro node inside slot guards
    rcases List.mem_cons.mp inside with new | old
    · subst new
      change slot ∈ Function.update state.guards pointer (state.protectors pointer) pointer
        at guards
      rw [Function.update_self] at guards
      exact met slot guards
    · exact noted.nodes self (List.mem_of_getElem? found) node old slot guards
  once := kept.once.push found fresh ⟨pointer, domain⟩ rfl rfl
  records := by
    have same : RecordsThere (state.noteRetired pointer) := kept.records.of_same rfl rfl rfl
    apply same.goTo thread
    change ∀ record ∈ place.pending, _
    rw [pending]
    exact nofun

theorem retire (fresh : pointer ∉ state.retirements)
    (met : ∀ slot ∈ state.protectors pointer,
      granted = true ∧ state.domainOf slot.record = some domain) :
    HazardKept (state.retire thread self domain pointer granted) := by
  have pushed : ∀ place : HazardPlace, place.claims = none → place.pending = [] →
      (∀ guards self, ScanSees guards self place) →
        HazardKept ((state.noteRetired pointer).goTo thread
          { self with retired := ⟨pointer, domain⟩ :: self.retired } place) :=
    fun place => kept.push found fresh fun slot guards => (met slot guards).2
  unfold HazardState.retire HazardState.scanFrom
  dsimp only
  split_ifs with grant
  · exact pushed _ rfl rfl fun _ _ => trivial
  · exact pushed _ rfl rfl fun _ _ => trivial
  · exact pushed _ rfl rfl fun _ _ => trivial
  · have none : state.protectors pointer = [] := by
      apply List.eq_nil_iff_forall_not_mem.mpr
      exact fun slot guards => grant (met slot guards).1
    refine ⟨kept.claimed.of_same rfl rfl fun _ active => active, ?_,
      kept.once.reclaimNow fresh none, kept.records.of_same rfl rfl rfl⟩
    have noted := kept.guarded.noteRetired (kept.once.fresh fresh)
    exact noted.fewer rfl noted.listed (fun same => same) (fun _ _ inside => inside)
      noted.held noted.holds

theorem acquire (domain : Nat) : HazardKept (state.acquireRecord thread self domain) := by
  rw [HazardState.acquireRecord]
  cases cached : self.cached with
  | none => exact kept.goTo found rfl nofun trivial
  | some record =>
      dsimp only
      split_ifs
      · exact kept.hold (Or.inl (kept.claimed.cached found cached))
      · exact kept.goTo found rfl nofun trivial

theorem call {event : HazardEvent} (met : KeepsHazards state event) :
    HazardKept (state.call thread self event) := by
  cases event with
  | acquire _ domain => exact kept.acquire found domain
  | protect _ record index pointer =>
      rw [HazardState.call, HazardState.protect]
      split_ifs
      · exact kept
      · exact kept.setSlot record index pointer
  | release _ record => exact kept.goTo found rfl nofun trivial
  | retire _ domain pointer granted => exact kept.retire found met.1 met.2
  | scan _ domain => exact kept.scanFrom found domain 0
  | step _ granted => exact kept

end HazardKept

theorem hazardStep_cases {event : HazardEvent} (taken : next ∈ hazardStep state event) :
    next = state ∨ ∃ self, state.threads[event.thread]? = some self ∧
      ((∃ thread granted, event = .step thread granted ∧
          state.step thread self granted self.place = some next) ∨
        next = state.call event.thread self event) := by
  cases found : state.threads[event.thread]? with
  | none =>
      simp only [hazardStep, found] at taken
      exact Or.inl (Option.some.inj taken).symm
  | some self =>
      cases event with
      | step thread granted =>
          simp only [hazardStep, found] at taken
          exact Or.inr ⟨self, rfl, Or.inl ⟨thread, granted, rfl, taken⟩⟩
      | acquire _ _ | protect _ _ _ _ | release _ _ | retire _ _ _ _ | scan _ _ =>
          simp only [hazardStep, found] at taken
          split_ifs at taken
          · exact Or.inr ⟨self, rfl, Or.inr (Option.some.inj taken).symm⟩
          · exact Or.inl (Option.some.inj taken).symm

theorem hazardStep_keeps : Keeps hazardStep KeepsHazards HazardKept := by
  intro state event next kept met taken
  rcases hazardStep_cases taken with same | ⟨self, found, moves | called⟩
  · rw [same]
    exact kept
  · obtain ⟨thread, granted, rfl, moved⟩ := moves
    exact kept.step found (met self found) moved
  · rw [called]
    exact kept.call found met

theorem hazardKept_start (threads : Nat) : HazardKept (.start threads) where
  claimed := by
    have unclaimed : ∀ {record thread : Nat},
        ¬(HazardState.start threads).Claims record thread := by
      intro record thread claims
      rcases claims with holds | ⟨self, there, inside⟩
      · cases holds
      · rw [(List.mem_replicate.mp (List.mem_of_getElem? there)).2] at inside
        cases inside
    refine ⟨fun first _ => absurd first unclaimed, fun claims => absurd claims unclaimed, ?_⟩
    intro thread self record there cached
    rw [(List.mem_replicate.mp (List.mem_of_getElem? there)).2] at cached
    cases cached
  guarded := by
    refine ⟨nofun, nofun, nofun, nofun, ?_, ?_⟩
    · exact fun _ _ _ _ => nofun
    · intro self member
      rw [(List.mem_replicate.mp member).2]
      trivial
  once := by
    have none : (HazardState.start threads).disposed = [] := by
      apply List.flatMap_eq_nil_iff.mpr
      intro self member
      rw [(List.mem_replicate.mp member).2]
      rfl
    refine ⟨?_, ?_, nofun⟩
    · rw [none]
      exact List.nodup_nil
    · rw [none]
      exact nofun
  records := by
    refine ⟨nofun, ?_⟩
    intro self member
    rw [(List.mem_replicate.mp member).2]
    exact nofun

/-- While pointers are protected in the domain that they are retired to and scanned in, and
each record is released by its one holder, no pointer is freed twice or while an acquired
record protects it, and no record has two owners. -/
theorem hazardPointers_lawful {threads : Nat} {events : List HazardEvent}
    (meets : EveryStep hazardStep KeepsHazards (.start threads) events) :
    EveryStep hazardStep HazardLawAfter (.start threads) events := by
  apply EveryStep.of_keeps hazardStep_keeps ?_ (hazardKept_start threads) meets
  intro state event kept met next taken
  exact (hazardStep_keeps state event next kept met taken).law

/-- One thread acquires a record, protects a pointer and releases the record; another retires
the pointer and scans before and after the release. -/
def releasedRecordRun : List HazardEvent :=
  [.acquire 0 0, .step 0 true, .step 0 true, .step 0 true, .protect 0 0 0 (some 5),
    .retire 1 0 5 true, .scan 1 0, .step 1 true, .step 1 true, .step 1 true, .release 0 0] ++
  List.replicate 9 (.step 0 true) ++ .scan 1 0 :: List.replicate 4 (.step 1 true)

theorem hazardPointers_lawful_releasedRecordRun :
    EveryStep hazardStep HazardLawAfter (.start 2) releasedRecordRun :=
  hazardPointers_lawful (by decide +kernel)

/-- The first scan keeps the pointer and the second frees it. -/
example : (runFrom hazardStep (.start 2) (releasedRecordRun.take 10)).map (fun state =>
      state.freed.length) = some 0 ∧
    (runFrom hazardStep (.start 2) releasedRecordRun).map (fun state => state.freed.length) =
      some 1 := by
  decide +kernel

/-- A thread acquires a record in one domain and then in another, where it gets the cached
record of the first; the pointer that it protects there is retired and freed. -/
def cachedRecordRun : List HazardEvent :=
  [.acquire 0 0, .step 0 true, .step 0 true, .step 0 true, .acquire 0 1,
    .protect 0 0 0 (some 5), .retire 1 1 5 true, .scan 1 1] ++ List.replicate 3 (.step 1 true)

theorem not_hazardLaw_cachedRecordRun :
    ¬∀ (threads : Nat) (events : List HazardEvent),
      EveryStep hazardStep HazardLawAfter (.start threads) events := by
  intro lawful
  have unguarded : EveryStep hazardStep
      (fun state event => ∀ next ∈ hazardStep state event,
        ∀ freed ∈ next.freed, freed.guards = []) (.start 2) cachedRecordRun :=
    (lawful 2 cachedRecordRun).mono fun _ _ law next taken => (law next taken).unguarded
  exact absurd unguarded (by decide +kernel)

end Jdbx
