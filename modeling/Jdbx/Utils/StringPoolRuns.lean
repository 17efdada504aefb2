import Jdbx.Library.ThreadList
import Jdbx.Utils.StringPoolEntries

/-!
# Interleavings on the string pool

Any threads in any order.  The pool shares and counts its strings as long as no string with a
`NUL` is interned, none that is there is interned while the pool is full, and an insertion
still finds room.
-/

namespace Jdbx

open Library

variable {pool : StringPool} {pointer : Nat} {entry : PoolEntry} {text : Bytes} {handle : Handle}
  {state next : StringPoolState} {thread : Nat} {old : StringPlace}

namespace StringPlace

def pendingString : StringPlace → Bool
  | countString _ => true
  | _ => false

def pendingMemory : StringPlace → Nat
  | countString handle | countMemory handle => entrySize handle.text.length
  | _ => 0

def Sound : StringPlace → Prop
  | checkLimit text | lookup text => NulFree text
  | drop handle hash => hash = hashString handle.text
  | _ => True

end StringPlace

namespace StringPool

def sizeAt (pool : StringPool) (pointer : Nat) : Nat :=
  entrySize ((pool.textAt pointer).getD []).length

/-- What `total_memory` should say. -/
def memory (pool : StringPool) : Nat :=
  fixedMemory pool.table.length + (pool.pointers.map pool.sizeAt).sum

theorem memory_setRefCount (pool : StringPool) (pointer : Nat) (refCount : UInt32) :
    (pool.setRefCount pointer refCount).memory = pool.memory := by
  have sizes : (pool.setRefCount pointer refCount).sizeAt = pool.sizeAt :=
    funext fun other => by rw [sizeAt, sizeAt, textAt_setRefCount]
  rw [memory, memory, sizes]
  rfl

namespace EntriesKept

variable (kept : EntriesKept pool)

include kept

theorem memory_insert (nulFree : NulFree text)
    (absent : ∀ pointer entry, pool.entries pointer = some entry → entry.text ≠ text) :
    (pool.insert text).memory = pool.memory + entrySize text.length := by
  have older : pool.pointers.map (pool.insert text).sizeAt = pool.pointers.map pool.sizeAt := by
    apply List.map_congr_left
    intro pointer member
    have different : pointer ≠ pool.allocated := by
      rintro rfl
      rw [kept.mem_pointers, kept.unallocated] at member
      cases member
    rw [sizeAt, sizeAt, textAt, textAt, insert_entries_of_ne different]
  have new : (pool.insert text).sizeAt pool.allocated = entrySize text.length := by
    rw [sizeAt, textAt, insert_entries_new]
    rfl
  have sum := ((kept.pointers_insert nulFree absent).map (pool.insert text).sizeAt).sum_nat
  rw [List.map_cons, List.sum_cons, older, new] at sum
  rw [memory, memory, insert_length, sum]
  omega

theorem memory_remove (found : pool.entries pointer = some entry) :
    pool.memory = (pool.remove pointer (hashString entry.text) entry.text).memory +
      entrySize entry.text.length := by
  have perm : pool.pointers.Perm
      (pointer :: (pool.remove pointer (hashString entry.text) entry.text).pointers) :=
    kept.pointers_remove found
  have rest : (pool.remove pointer (hashString entry.text) entry.text).pointers.map pool.sizeAt =
      (pool.remove pointer (hashString entry.text) entry.text).pointers.map
        (pool.remove pointer (hashString entry.text) entry.text).sizeAt := by
    apply List.map_congr_left
    intro other member
    have different : other ≠ pointer := by
      rintro rfl
      rw [(kept.remove found).mem_pointers, remove_entries_self] at member
      cases member
    rw [sizeAt, sizeAt, textAt, textAt, remove_entries_of_ne different]
  have own : pool.sizeAt pointer = entrySize entry.text.length := by
    rw [sizeAt, textAt, found]
    rfl
  have sum := (perm.map pool.sizeAt).sum_nat
  rw [List.map_cons, List.sum_cons, rest, own] at sum
  rw [memory, memory, remove_length, sum]
  omega

end EntriesKept

theorem sub_add_of_add_eq {total pending gone rest : UInt64}
    (balance : total + pending = rest + gone) : total - gone + pending = rest := by
  have split : total = rest + gone - pending := by
    rw [← balance, UInt64.add_sub_cancel]
  rw [split]
  grind

theorem drop_counters (kept : EntriesKept pool) (found : pool.entries pointer = some entry)
    {strings memory : UInt64}
    (countsStrings : pool.currentStrings + strings = UInt64.ofNat pool.pointers.length)
    (countsMemory : pool.totalMemory + memory = UInt64.ofNat pool.memory) :
    (pool.drop pointer (hashString entry.text)).currentStrings + strings =
        UInt64.ofNat (pool.drop pointer (hashString entry.text)).pointers.length ∧
      (pool.drop pointer (hashString entry.text)).totalMemory + memory =
        UInt64.ofNat (pool.drop pointer (hashString entry.text)).memory ∧
      (pool.drop pointer (hashString entry.text)).pointers.length ≤ pool.pointers.length ∧
      (pool.drop pointer (hashString entry.text)).maxStrings = pool.maxStrings := by
  rw [kept.drop_eq found]
  split_ifs
  · have perm : pool.pointers.Perm
        (pointer :: (pool.remove pointer (hashString entry.text) entry.text).pointers) :=
      kept.pointers_remove found
    have length := perm.length_eq
    have removed := kept.memory_remove found
    have nulFree := (kept.sound pointer entry found).2.1
    rw [length, List.length_cons, UInt64.ofNat_add] at countsStrings
    rw [removed, UInt64.ofNat_add] at countsMemory
    refine ⟨sub_add_of_add_eq countsStrings, ?_, ?_, rfl⟩
    · have total : (pool.remove pointer (hashString entry.text) entry.text).totalMemory =
          pool.totalMemory - UInt64.ofNat (entrySize entry.text.length) := by
        rw [remove, cString_eq_self nulFree]
      rw [total]
      exact sub_add_of_add_eq countsMemory
    · rw [length]
      exact Nat.le_succ _
  · refine ⟨countsStrings, ?_, Nat.le_refl _, rfl⟩
    rw [memory_setRefCount]
    exact countsMemory

end StringPool

/-! ## The law of a step -/

structure StringPoolKept (state : StringPoolState) : Prop where
  entries : state.pool.EntriesKept
  references : state.pool.References state.held
  sound : ∀ place ∈ state.places, place.Sound
  strings : state.pool.currentStrings +
    UInt64.ofNat (state.places.countP StringPlace.pendingString) =
      UInt64.ofNat state.pool.pointers.length
  memory : state.pool.totalMemory +
    UInt64.ofNat (state.places.map StringPlace.pendingMemory).sum =
      UInt64.ofNat state.pool.memory
  limited : 0 < state.pool.maxStrings →
    state.pool.pointers.length ≤ state.pool.maxStrings.toNat
  refused : ∀ present ∈ state.refusals, present = false

namespace StringPoolKept

theorem held_goTo (there : state.places[thread]? = some old) (new : StringPlace) :
    ∃ rest, state.held.Perm (old.handle.toList ++ rest) ∧
      (state.goTo thread new).held.Perm (new.handle.toList ++ rest) := by
  obtain ⟨others, before, after⟩ := filterMap_set_perm StringPlace.handle there new
  refine ⟨others ++ state.returned, ?_, ?_⟩
  · rw [← List.append_assoc]
    exact before.append_right _
  · rw [← List.append_assoc]
    exact after.append_right _

section Steps

variable (kept : StringPoolKept state)

include kept

theorem law : StringPoolLaw state := by
  have isThere : ∀ pointer ∈ state.pool.pointers, ∃ entry,
      state.pool.entries pointer = some entry :=
    fun pointer member =>
      Option.isSome_iff_exists.mp (kept.entries.mem_pointers.mp member)
  refine {
    once := kept.entries.pointers_nodup
    shared := ?_
    held := ?_
    counted := ?_
    limited := kept.limited
    refused := kept.refused
    quiet := ?_ }
  · intro first firstMember second secondMember equal
    obtain ⟨entry, found⟩ := isThere first firstMember
    obtain ⟨twin, twinFound⟩ := isThere second secondMember
    rw [StringPool.textAt, StringPool.textAt, found, twinFound] at equal
    exact kept.entries.shared first second entry twin found twinFound (Option.some.inj equal)
  · intro handle member
    obtain ⟨entry, found, sameText⟩ := kept.references.genuine handle member
    refine ⟨kept.entries.mem_pointers.mpr (Option.isSome_iff_exists.mpr ⟨entry, found⟩), ?_⟩
    rw [StringPool.textAt, found, ← sameText]
    rfl
  · intro pointer member
    obtain ⟨entry, found⟩ := isThere pointer member
    exact ⟨entry, found, kept.references.counted pointer entry found⟩
  · intro allIdle
    have noString : state.places.countP StringPlace.pendingString = 0 := by
      apply List.countP_eq_zero.mpr
      intro place member
      rw [allIdle place member]
      exact Bool.false_ne_true
    have noMemory : (state.places.map StringPlace.pendingMemory).sum = 0 := by
      apply List.sum_eq_zero_iff_forall_eq_nat.mpr
      intro size member
      obtain ⟨place, inPlaces, rfl⟩ := List.mem_map.mp member
      rw [allIdle place inPlaces]
      rfl
    have strings := kept.strings
    have memory := kept.memory
    rw [noString] at strings
    rw [noMemory] at memory
    exact ⟨(UInt64.add_zero _).symm.trans strings, (UInt64.add_zero _).symm.trans memory⟩

theorem sound_set (new : StringPlace) (sound : new.Sound) :
    ∀ place ∈ state.places.set thread new, place.Sound :=
  forall_mem_set kept.sound sound thread

theorem goTo (there : state.places[thread]? = some old) {new : StringPlace}
    (handle : new.handle = old.handle) (pendingString : new.pendingString = old.pendingString)
    (pendingMemory : new.pendingMemory = old.pendingMemory) (sound : new.Sound) :
    StringPoolKept (state.goTo thread new) := by
  obtain ⟨rest, before, after⟩ := held_goTo there new
  have count := countP_set there new StringPlace.pendingString
  have sum := sum_map_set there new StringPlace.pendingMemory
  rw [pendingString] at count
  rw [pendingMemory] at sum
  exact { kept with
    references := kept.references.perm (after.trans (handle ▸ before.symm))
    sound := forall_mem_set kept.sound sound thread
    strings := by
      have strings := kept.strings
      rw [← Nat.add_right_cancel count] at strings
      exact strings
    memory := by
      have memory := kept.memory
      rw [← Nat.add_right_cancel sum] at memory
      exact memory }

theorem refuse (there : state.places[thread]? = some (.checkLimit text))
    (absent : ¬ state.HasText text) :
    StringPoolKept ({ state with
      refusals := state.refusals ++ [decide (state.HasText text)] }.goTo thread .idle) := by
  have left : StringPoolKept (state.goTo thread .idle) := kept.goTo there rfl rfl rfl trivial
  exact { left with
    refused := by
      intro present member
      rcases List.mem_append.mp member with before | new
      · exact kept.refused present before
      · rw [List.mem_singleton.mp new]
        exact decide_eq_false absent }

theorem share (there : state.places[thread]? = some (.lookup text))
    (found : state.pool.entries pointer = some entry) (sameText : entry.text = text)
    (noWrap : entry.refCount + 1 ≠ 0) :
    StringPoolKept (state.share thread pointer text entry.refCount) := by
  subst sameText
  have left : StringPoolKept (state.goTo thread .idle) := kept.goTo there rfl rfl rfl trivial
  have entries := kept.entries.setRefCount found (entry.refCount + 1)
  have held : (state.share thread pointer entry.text entry.refCount).held.Perm
      (⟨entry.text, pointer⟩ :: state.held) := by
    obtain ⟨rest, before, after⟩ := held_goTo there .idle
    have same := after.trans before.symm
    have added := same.append_right [Handle.mk entry.text pointer]
    rw [StringPoolState.held, List.append_assoc] at added
    exact added.trans List.perm_append_comm
  have sameMemory := state.pool.memory_setRefCount pointer (entry.refCount + 1)
  exact { left with
    entries := { entries with }
    references := (kept.references.hit found noWrap).perm held
    memory := left.memory.trans (congrArg UInt64.ofNat sameMemory.symm) }

theorem insert (there : state.places[thread]? = some (.lookup text))
    (absent : state.pool.find text = none)
    (room : 0 < state.pool.maxStrings →
      state.pool.pointers.length < state.pool.maxStrings.toNat) :
    StringPoolKept ({ state with pool := state.pool.insert text }.goTo thread
      (.countString ⟨text, state.pool.allocated⟩)) := by
  have nulFree : NulFree text := kept.sound _ (List.mem_of_getElem? there)
  have noEntry : ∀ pointer entry, state.pool.entries pointer = some entry →
      entry.text ≠ text := by
    intro pointer entry found sameText
    rw [kept.entries.find_eq_some.mpr ⟨entry, found, sameText⟩] at absent
    cases absent
  have count := countP_set there (.countString ⟨text, state.pool.allocated⟩)
    StringPlace.pendingString
  have sum := sum_map_set there (.countString ⟨text, state.pool.allocated⟩)
    StringPlace.pendingMemory
  have length := (kept.entries.pointers_insert nulFree noEntry).length_eq
  have memory := kept.entries.memory_insert nulFree noEntry
  obtain ⟨rest, before, after⟩ :=
    held_goTo there (.countString ⟨text, state.pool.allocated⟩)
  exact {
    entries := kept.entries.insert nulFree noEntry
    references := (kept.references.insert kept.entries text).perm
      (after.trans (before.symm.cons _))
    sound := kept.sound_set (.countString ⟨text, state.pool.allocated⟩) trivial
    strings := by
      have strings := kept.strings
      change state.pool.currentStrings + UInt64.ofNat ((state.places.set thread _).countP _) =
        UInt64.ofNat (state.pool.insert text).pointers.length
      rw [length, List.length_cons, UInt64.ofNat_add, ← strings, UInt64.add_assoc,
        ← UInt64.ofNat_add]
      exact congrArg (fun pending => _ + UInt64.ofNat pending) count
    memory := by
      have total := kept.memory
      change state.pool.totalMemory + UInt64.ofNat ((state.places.set thread _).map _).sum =
        UInt64.ofNat (state.pool.insert text).memory
      rw [memory, UInt64.ofNat_add, ← total, UInt64.add_assoc, ← UInt64.ofNat_add]
      exact congrArg (fun pending => _ + UInt64.ofNat pending) sum
    limited := by
      intro isLimited
      exact length ▸ room isLimited
    refused := kept.refused }

theorem countString (there : state.places[thread]? = some (.countString handle)) :
    StringPoolKept ({ state with
      pool := { state.pool with currentStrings := state.pool.currentStrings + 1 } }.goTo thread
        (.countMemory handle)) := by
  have count := countP_set there (.countMemory handle) StringPlace.pendingString
  have sum := sum_map_set there (.countMemory handle) StringPlace.pendingMemory
  obtain ⟨rest, before, after⟩ := held_goTo there (.countMemory handle)
  exact { kept with
    entries := { kept.entries with }
    references := { kept.references.perm (after.trans before.symm) with }
    sound := kept.sound_set (.countMemory handle) trivial
    strings := by
      have strings := kept.strings
      have pending : (state.places.set thread (.countMemory handle)).countP
          StringPlace.pendingString + 1 = state.places.countP StringPlace.pendingString := count
      rw [← pending, UInt64.ofNat_add, UInt64.add_comm (UInt64.ofNat _), ← UInt64.add_assoc]
        at strings
      exact strings
    memory := by
      have memory := kept.memory
      rw [← Nat.add_right_cancel sum] at memory
      exact memory }

theorem countMemory (there : state.places[thread]? = some (.countMemory handle)) :
    StringPoolKept ({ state with
      pool := { state.pool with
        totalMemory := state.pool.totalMemory +
          UInt64.ofNat (entrySize handle.text.length) } }.goTo thread (.countMiss handle)) := by
  have count := countP_set there (.countMiss handle) StringPlace.pendingString
  have sum := sum_map_set there (.countMiss handle) StringPlace.pendingMemory
  obtain ⟨rest, before, after⟩ := held_goTo there (.countMiss handle)
  exact { kept with
    entries := { kept.entries with }
    references := { kept.references.perm (after.trans before.symm) with }
    sound := kept.sound_set (.countMiss handle) trivial
    strings := by
      have strings := kept.strings
      rw [← Nat.add_right_cancel count] at strings
      exact strings
    memory := by
      have memory := kept.memory
      have pending : ((state.places.set thread (.countMiss handle)).map
          StringPlace.pendingMemory).sum + entrySize handle.text.length =
            (state.places.map StringPlace.pendingMemory).sum := sum
      rw [← pending, UInt64.ofNat_add, UInt64.add_comm (UInt64.ofNat _), ← UInt64.add_assoc]
        at memory
      exact memory }

theorem countMiss (there : state.places[thread]? = some (.countMiss handle)) :
    StringPoolKept ({ state with
      pool := { state.pool with missCount := state.pool.missCount + 1 }
      returned := state.returned ++ [handle] }.goTo thread .idle) := by
  have count := countP_set there .idle StringPlace.pendingString
  have sum := sum_map_set there .idle StringPlace.pendingMemory
  obtain ⟨rest, before, after⟩ := held_goTo there .idle
  have held : ({ state with
      pool := { state.pool with missCount := state.pool.missCount + 1 }
      returned := state.returned ++ [handle] }.goTo thread .idle : StringPoolState).held.Perm
        state.held := by
    have added := after.append_right [handle]
    rw [StringPoolState.held, List.append_assoc] at added
    exact added.trans (List.perm_append_comm.trans before.symm)
  exact { kept with
    entries := { kept.entries with }
    references := { kept.references.perm held with }
    sound := kept.sound_set .idle trivial
    strings := by
      have strings := kept.strings
      rw [← Nat.add_right_cancel count] at strings
      exact strings
    memory := by
      have memory := kept.memory
      rw [← Nat.add_right_cancel sum] at memory
      exact memory }

theorem drop {hash : UInt32} (there : state.places[thread]? = some (.drop handle hash)) :
    StringPoolKept ({ state with pool := state.pool.drop handle.pointer hash }.goTo thread
      .idle) := by
  have isHash : hash = hashString handle.text := kept.sound _ (List.mem_of_getElem? there)
  subst isHash
  obtain ⟨rest, before, after⟩ := held_goTo there .idle
  have references : state.pool.References (handle :: rest) :=
    kept.references.perm before.symm
  obtain ⟨entries, refsLeft⟩ := references.drop kept.entries
  obtain ⟨entry, found, sameText⟩ := references.genuine handle List.mem_cons_self
  have count := Nat.add_right_cancel (countP_set there .idle StringPlace.pendingString)
  have sum := Nat.add_right_cancel (sum_map_set there .idle StringPlace.pendingMemory)
  have strings := kept.strings
  have memory := kept.memory
  rw [← count] at strings
  rw [← sum] at memory
  have counters := StringPool.drop_counters kept.entries found strings memory
  rw [sameText] at counters
  obtain ⟨stringsLeft, memoryLeft, fewer, sameLimit⟩ := counters
  exact {
    entries := entries
    references := refsLeft.perm after
    sound := kept.sound_set .idle trivial
    strings := stringsLeft
    memory := memoryLeft
    limited := by
      intro isLimited
      have limited : 0 < state.pool.maxStrings := sameLimit ▸ isLimited
      have bound := Nat.le_trans fewer (kept.limited limited)
      exact sameLimit.symm ▸ bound
    refused := kept.refused }

theorem entry_of_handle (there : state.places[thread]? = some old)
    (own : old.handle = some handle) :
    ∃ entry, state.pool.entries handle.pointer = some entry ∧ entry.text = handle.text ∧
      entry.refCount ≠ 0 := by
  have member : handle ∈ state.held :=
    List.mem_append_left _ (List.mem_filterMap.mpr ⟨old, List.mem_of_getElem? there, own⟩)
  obtain ⟨entry, found, sameText⟩ := kept.references.genuine handle member
  have positive := (kept.references.counted handle.pointer entry found).2
  exact ⟨entry, found, sameText, UInt32.pos_iff_ne_zero.mp positive⟩

theorem release (there : state.places[thread]? = some .idle)
    (returned : handle ∈ state.returned) :
    StringPoolKept ({ state with returned := state.returned.erase handle }.goTo thread
      (.readRefs handle)) := by
  obtain ⟨others, before, after⟩ := filterMap_set_perm StringPlace.handle there (.readRefs handle)
  have held : ({ state with returned := state.returned.erase handle }.goTo thread
      (.readRefs handle) : StringPoolState).held.Perm state.held := by
    have split := (before.append_right state.returned).trans
      ((List.perm_cons_erase returned).append_left others)
    have now := after.append_right (state.returned.erase handle)
    exact now.trans (List.perm_middle.symm.trans split.symm)
  have count := Nat.add_right_cancel
    (countP_set there (.readRefs handle) StringPlace.pendingString)
  have sum := Nat.add_right_cancel
    (sum_map_set there (.readRefs handle) StringPlace.pendingMemory)
  exact { kept with
    references := kept.references.perm held
    sound := kept.sound_set (.readRefs handle) trivial
    strings := by
      have strings := kept.strings
      rw [← count] at strings
      exact strings
    memory := by
      have memory := kept.memory
      rw [← sum] at memory
      exact memory }

theorem placeStep {granted : Bool} (there : state.places[thread]? = some old)
    (keeps : KeepsPlaceLaw state granted old) :
    ∃ next, state.step thread granted old = some next ∧ StringPoolKept next := by
  cases old with
  | idle => exact ⟨state, rfl, kept⟩
  | checkLimit text =>
      rw [StringPoolState.step]
      split_ifs with full
      · exact ⟨_, rfl, kept.refuse there (keeps full.1 full.2)⟩
      · have nulFree : NulFree text := kept.sound _ (List.mem_of_getElem? there)
        exact ⟨_, rfl, kept.goTo there rfl rfl rfl nulFree⟩
  | lookup text =>
      obtain ⟨room, noWrap⟩ := keeps
      rw [StringPoolState.step]
      cases result : state.pool.find text with
      | some pointer =>
          obtain ⟨entry, found, sameText⟩ := kept.entries.find_eq_some.mp result
          refine ⟨_, congrArg (Option.map _) found, ?_⟩
          exact kept.share there found sameText (noWrap pointer result entry found)
      | none =>
          cases granted with
          | true => exact ⟨_, rfl, kept.insert there result (room result rfl)⟩
          | false => exact ⟨_, rfl, kept.goTo there rfl rfl rfl trivial⟩
  | countString handle => exact ⟨_, rfl, kept.countString there⟩
  | countMemory handle => exact ⟨_, rfl, kept.countMemory there⟩
  | countMiss handle => exact ⟨_, rfl, kept.countMiss there⟩
  | readRefs handle =>
      obtain ⟨entry, found, -, counted⟩ := kept.entry_of_handle there rfl
      have counts : StringPoolKept (state.goTo thread (.readHash handle)) :=
        kept.goTo there rfl rfl rfl trivial
      refine ⟨_, ?_, counts⟩
      rw [StringPoolState.step, found, Option.map_some, if_neg counted]
  | readHash handle =>
      obtain ⟨entry, found, sameText, -⟩ := kept.entry_of_handle there rfl
      have isHash : entry.hash = hashString handle.text :=
        sameText ▸ (kept.entries.sound _ entry found).1
      have reads : StringPoolKept (state.goTo thread (.drop handle entry.hash)) :=
        kept.goTo there rfl rfl rfl isHash
      refine ⟨_, ?_, reads⟩
      rw [StringPoolState.step, found, Option.map_some]
  | drop handle hash => exact ⟨_, rfl, kept.drop there⟩

theorem step {event : StringPoolEvent} (keeps : KeepsStringPoolLaw state event) :
    ∃ next, stringPoolStep state event = some next ∧ StringPoolKept next := by
  cases event with
  | intern thread text =>
      rw [stringPoolStep]
      split_ifs with starts
      · exact ⟨_, rfl, kept.goTo starts.1 rfl rfl rfl keeps⟩
      · exact ⟨state, rfl, kept⟩
  | release thread handle =>
      rw [stringPoolStep]
      split_ifs with starts
      · exact ⟨_, rfl, kept.release starts.1 starts.2⟩
      · exact ⟨state, rfl, kept⟩
  | step thread granted =>
      rw [stringPoolStep]
      cases there : state.places[thread]? with
      | none => exact ⟨state, rfl, kept⟩
      | some place => exact kept.placeStep there (keeps place there)

end Steps

end StringPoolKept

theorem createdCapacity_pos (initialCapacity maxStrings : UInt64) :
    0 < (StringPool.stringPoolCreate initialCapacity maxStrings).table.length := by
  rw [StringPool.stringPoolCreate]
  change 0 < (List.replicate _ []).length
  rw [List.length_replicate]
  split_ifs with default
  · decide
  · have notZero : initialCapacity.toNat ≠ 0 :=
      fun zero => default (Or.inl (UInt64.toNat_inj.mp zero))
    exact Nat.pos_of_ne_zero notZero

theorem stringPoolKept_start (initialCapacity maxStrings : UInt64) (threads : Nat) :
    StringPoolKept (.start initialCapacity maxStrings threads) := by
  have roomy := createdCapacity_pos initialCapacity maxStrings
  have pointers : (StringPool.stringPoolCreate initialCapacity maxStrings).pointers = [] :=
    List.flatten_replicate_nil
  have noHandle : (StringPoolState.start initialCapacity maxStrings threads).held = [] := by
    rw [StringPoolState.held, StringPoolState.start, List.filterMap_replicate_of_none rfl]
    rfl
  have noString : (List.replicate threads StringPlace.idle).countP StringPlace.pendingString =
      0 := by
    rw [List.countP_replicate]
    rfl
  have noMemory : ((List.replicate threads StringPlace.idle).map
      StringPlace.pendingMemory).sum = 0 := by
    apply List.sum_eq_zero_iff_forall_eq_nat.mpr
    intro size member
    obtain ⟨place, inPlaces, rfl⟩ := List.mem_map.mp member
    rw [List.eq_of_mem_replicate inPlaces]
    rfl
  refine ⟨⟨?_, nofun, nofun, roomy⟩, ⟨?_, nofun⟩, ?_, ?_, ?_, ?_, ?_⟩
  · refine (placed_replicate _ _).congr (fun _ _ => rfl) fun pointer => ?_
    exact iff_of_false Bool.false_ne_true id
  · intro handle member
    rw [noHandle] at member
    cases member
  · intro place member
    rw [List.eq_of_mem_replicate member]
    trivial
  · change 0 + UInt64.ofNat ((List.replicate threads StringPlace.idle).countP _) =
      UInt64.ofNat (StringPool.stringPoolCreate initialCapacity maxStrings).pointers.length
    rw [noString, pointers]
    rfl
  · have memory : (StringPool.stringPoolCreate initialCapacity maxStrings).memory =
        fixedMemory (StringPool.stringPoolCreate initialCapacity maxStrings).table.length := by
      rw [StringPool.memory, pointers]
      rfl
    change (StringPool.stringPoolCreate initialCapacity maxStrings).totalMemory +
      UInt64.ofNat ((List.replicate threads StringPlace.idle).map _).sum =
        UInt64.ofNat (StringPool.stringPoolCreate initialCapacity maxStrings).memory
    rw [noMemory, memory, StringPool.stringPoolCreate]
    change _ = UInt64.ofNat (fixedMemory (List.replicate _ []).length)
    rw [List.length_replicate]
    exact UInt64.add_zero _
  · intro _
    change (StringPool.stringPoolCreate initialCapacity maxStrings).pointers.length ≤ _
    rw [pointers]
    exact Nat.zero_le _
  · nofun

/-- In a run whose steps meet the condition every step keeps the law. -/
theorem stringPool_lawful (initialCapacity maxStrings : UInt64) (threads : Nat)
    {events : List StringPoolEvent}
    (keeps : EveryStep stringPoolStep KeepsStringPoolLaw
      (.start initialCapacity maxStrings threads) events) :
    EveryStep stringPoolStep StringStepLawful
      (.start initialCapacity maxStrings threads) events := by
  have keepsKept : Keeps stringPoolStep KeepsStringPoolLaw StringPoolKept := by
    intro state event next kept keepsEvent taken
    obtain ⟨other, same, keptAfter⟩ := kept.step keepsEvent
    obtain rfl := Option.some.inj (same.symm.trans taken)
    exact keptAfter
  refine EveryStep.of_keeps keepsKept ?_
    (stringPoolKept_start initialCapacity maxStrings threads) keeps
  intro state event kept keepsEvent
  obtain ⟨next, taken, keptAfter⟩ := kept.step keepsEvent
  exact ⟨next, taken, keptAfter.law⟩

def internBy (thread : Nat) (text : String) (count : Nat) : List StringPoolEvent :=
  .intern thread (ascii text) :: List.replicate count (.step thread true)

def sharedRun : List StringPoolEvent :=
  internBy 0 "id" 2 ++ internBy 1 "id" 2 ++ List.replicate 3 (.step 0 true) ++
    internBy 0 "name" 5 ++ [.release 1 ⟨ascii "id", 0⟩] ++ List.replicate 3 (.step 1 true) ++
    [.release 0 ⟨ascii "id", 0⟩] ++ List.replicate 3 (.step 0 true)

theorem stringPool_lawful_sharedRun :
    EveryStep stringPoolStep StringStepLawful (.start 2 2 2) sharedRun := by
  have keeps : EveryStep stringPoolStep KeepsStringPoolLaw (.start 2 2 2) sharedRun := by
    decide +kernel
  exact stringPool_lawful 2 2 2 keeps

def fullRun : List StringPoolEvent :=
  internBy 0 "id" 5 ++ internBy 0 "id" 1

theorem not_stringLaw_fullRun :
    ¬ EveryStep stringPoolStep StringStepLawful (.start 2 1 1) fullRun := by
  intro lawful
  have refused : EveryStep stringPoolStep (fun state event =>
      (stringPoolStep state event).all fun next => next.refusals.all fun present => !present)
      (.start 2 1 1) fullRun := by
    apply lawful.mono
    intro state event met
    obtain ⟨next, taken, law⟩ := met
    rw [taken, Option.all_some, List.all_eq_true]
    intro present member
    rw [law.refused present member]
    rfl
  exact absurd refused (by decide +kernel)

end Jdbx
