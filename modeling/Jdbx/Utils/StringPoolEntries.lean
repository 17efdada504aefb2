import Jdbx.Utils.StringPool

/-!
# The entries of the string pool

Among strings without a `NUL` a lookup finds the entry of its string, and hits, insertions and
releases keep one entry for each string and in it the number of references.
-/

namespace Jdbx

open Library

variable {pool : StringPool} {held other : List Handle} {pointer : Nat} {entry : PoolEntry}
  {text : Bytes} {handle : Handle}

namespace StringPool

def bucketOf (pool : StringPool) (pointer : Nat) : Nat :=
  pool.bucketIndex (((pool.entries pointer).map PoolEntry.hash).getD 0)

/-- Every entry is in the bucket of its string, no string has two entries, and none has a
`NUL`. -/
structure EntriesKept (pool : StringPool) : Prop where
  placed : Placed pool.bucketOf (fun pointer => (pool.entries pointer).isSome) pool.table
  sound : ∀ pointer entry, pool.entries pointer = some entry →
    entry.hash = hashString entry.text ∧ NulFree entry.text ∧ pointer < pool.allocated
  shared : ∀ first second entry twin, pool.entries first = some entry →
    pool.entries second = some twin → entry.text = twin.text → first = second
  roomy : 0 < pool.table.length

/-- Every reference is to the entry of its string, and an entry counts its references. -/
structure References (pool : StringPool) (held : List Handle) : Prop where
  genuine : ∀ handle ∈ held, ∃ entry, pool.entries handle.pointer = some entry ∧
    entry.text = handle.text
  counted : ∀ pointer entry, pool.entries pointer = some entry →
    entry.refCount.toNat = held.countP (·.pointer = pointer) ∧ 0 < entry.refCount

theorem insert_entries_new (pool : StringPool) (text : Bytes) :
    (pool.insert text).entries pool.allocated = some ⟨text, 1, hashString text⟩ :=
  Function.update_self _ _ _

theorem insert_entries_of_ne (different : pointer ≠ pool.allocated) (text : Bytes) :
    (pool.insert text).entries pointer = pool.entries pointer :=
  Function.update_of_ne different _ _

theorem remove_entries_self (pool : StringPool) (pointer : Nat) (hash : UInt32) (text : Bytes) :
    (pool.remove pointer hash text).entries pointer = none :=
  Function.update_self _ _ _

theorem remove_entries_of_ne {gone : Nat} (different : pointer ≠ gone) (hash : UInt32)
    (text : Bytes) : (pool.remove gone hash text).entries pointer = pool.entries pointer :=
  Function.update_of_ne different _ _

theorem setRefCount_entries (found : pool.entries pointer = some entry) (refCount : UInt32) :
    (pool.setRefCount pointer refCount).entries =
      Function.update pool.entries pointer (some { entry with refCount := refCount }) := by
  rw [setRefCount, found]
  rfl

theorem setRefCount_entries_of_ne {other : Nat} (different : other ≠ pointer)
    (refCount : UInt32) :
    (pool.setRefCount pointer refCount).entries other = pool.entries other :=
  Function.update_of_ne different _ _

theorem textAt_setRefCount (pool : StringPool) (pointer other : Nat) (refCount : UInt32) :
    (pool.setRefCount pointer refCount).textAt other = pool.textAt other := by
  by_cases same : other = pointer
  · subst same
    cases found : pool.entries other with
    | none => rw [textAt, textAt, setRefCount, found, Option.map_none, ← found,
        Function.update_eq_self]
    | some entry =>
        rw [textAt, textAt, setRefCount_entries found, Function.update_self, found]
        rfl
  · rw [textAt, textAt, setRefCount_entries_of_ne same]

theorem insert_length (pool : StringPool) (text : Bytes) :
    (pool.insert text).table.length = pool.table.length :=
  List.length_modify ..

theorem remove_length (pool : StringPool) (pointer : Nat) (hash : UInt32) (text : Bytes) :
    (pool.remove pointer hash text).table.length = pool.table.length :=
  List.length_modify ..

theorem bucketIndex_lt (roomy : 0 < pool.table.length) (hash : UInt32) :
    pool.bucketIndex hash < pool.table.length := by
  have bound : hash.toNat &&& (pool.table.length - 1) ≤ pool.table.length - 1 :=
    Nat.and_le_right
  have within : pool.table.length - 1 < pool.table.length := Nat.sub_one_lt_of_lt roomy
  exact Nat.lt_of_le_of_lt bound within

namespace EntriesKept

section Entries

variable (kept : EntriesKept pool)

include kept

theorem bucketOf_eq (found : pool.entries pointer = some entry) :
    pool.bucketOf pointer = pool.bucketIndex (hashString entry.text) := by
  rw [bucketOf, found, ← (kept.sound pointer entry found).1]
  rfl

theorem isMatch_iff (found : pool.entries pointer = some entry) :
    pool.isMatch text pointer = true ↔ entry.text = text := by
  obtain ⟨hash, nulFree, -⟩ := kept.sound pointer entry found
  rw [isMatch, found]
  simp only [cString_eq_self nulFree, hash, Bool.and_eq_true, decide_eq_true_eq]
  constructor
  · intro equal
    obtain ⟨⟨-, length⟩, prefix_⟩ := equal
    rwa [List.take_of_length_le (Nat.le_of_eq length)] at prefix_
  · rintro rfl
    exact ⟨⟨rfl, rfl⟩, List.take_length⟩

theorem find_eq_some : pool.find text = some pointer ↔
    ∃ entry, pool.entries pointer = some entry ∧ entry.text = text := by
  have unique : ∀ other, (pool.entries other).isSome →
      pool.bucketOf other = pool.bucketIndex (hashString text) →
        pool.isMatch text other = true → ∀ pointer, (pool.entries pointer).isSome →
          pool.isMatch text pointer = true → other = pointer := by
    intro other isThere _ matched pointer pointerThere pointerMatched
    obtain ⟨entry, found⟩ := Option.isSome_iff_exists.mp isThere
    obtain ⟨twin, twinFound⟩ := Option.isSome_iff_exists.mp pointerThere
    apply kept.shared other pointer entry twin found twinFound
    rw [(kept.isMatch_iff found).mp matched, (kept.isMatch_iff twinFound).mp pointerMatched]
  constructor
  · intro result
    have matched := List.find?_some result
    obtain ⟨isThere, -⟩ := (kept.placed.mem_chain _ _).mp (List.mem_of_find?_eq_some result)
    obtain ⟨entry, found⟩ := Option.isSome_iff_exists.mp isThere
    exact ⟨entry, found, (kept.isMatch_iff found).mp matched⟩
  · intro there
    obtain ⟨entry, found, rfl⟩ := there
    have isThere : (pool.entries pointer).isSome := Option.isSome_iff_exists.mpr ⟨entry, found⟩
    have matched := (kept.isMatch_iff found).mpr rfl
    refine (kept.placed.find? ?_).mpr ⟨isThere, kept.bucketOf_eq found, matched⟩
    intro other otherThere otherAt otherMatched
    exact unique other otherThere otherAt otherMatched pointer isThere matched

theorem mem_pointers : pointer ∈ pool.pointers ↔ (pool.entries pointer).isSome :=
  kept.placed.mem_flatten

theorem setRefCount (found : pool.entries pointer = some entry) (refCount : UInt32) :
    EntriesKept (pool.setRefCount pointer refCount) := by
  have changed := setRefCount_entries found refCount
  have sameButCount : ∀ first after, (pool.setRefCount pointer refCount).entries first =
      some after → ∃ before, pool.entries first = some before ∧ after.text = before.text ∧
        after.hash = before.hash := by
    intro first after isAfter
    rw [changed] at isAfter
    by_cases same : first = pointer
    · subst same
      rw [Function.update_self] at isAfter
      cases isAfter
      exact ⟨entry, found, rfl, rfl⟩
    · rw [Function.update_of_ne same] at isAfter
      exact ⟨after, isAfter, rfl, rfl⟩
  refine ⟨?_, ?_, ?_, kept.roomy⟩
  · refine kept.placed.congr (fun first isThere => ?_) fun first => ?_
    · rw [bucketOf, bucketOf, changed]
      by_cases same : first = pointer
      · subst same
        rw [Function.update_self, found]
        rfl
      · rw [Function.update_of_ne same]
        rfl
    · rw [changed]
      by_cases same : first = pointer
      · subst same
        rw [Function.update_self, found]
        rfl
      · rw [Function.update_of_ne same]
  · intro first after isAfter
    obtain ⟨before, isBefore, sameText, sameHash⟩ := sameButCount first after isAfter
    rw [sameText, sameHash]
    exact kept.sound first before isBefore
  · intro first second after twin isAfter isTwin equal
    obtain ⟨before, isBefore, sameText, -⟩ := sameButCount first after isAfter
    obtain ⟨twinBefore, twinIsBefore, twinText, -⟩ := sameButCount second twin isTwin
    exact kept.shared first second before twinBefore isBefore twinIsBefore
      (sameText ▸ twinText ▸ equal)

theorem unallocated : pool.entries pool.allocated = none := by
  cases found : pool.entries pool.allocated with
  | none => rfl
  | some entry => exact (Nat.lt_irrefl _ (kept.sound _ entry found).2.2).elim

theorem insert (nulFree : NulFree text)
    (absent : ∀ pointer entry, pool.entries pointer = some entry → entry.text ≠ text) :
    EntriesKept (pool.insert text) := by
  have older : ∀ pointer, pointer ≠ pool.allocated →
      (pool.insert text).entries pointer = pool.entries pointer :=
    fun pointer different => insert_entries_of_ne different text
  have new := pool.insert_entries_new text
  have length := pool.insert_length text
  have notNew : ∀ pointer, (pool.entries pointer).isSome → pointer ≠ pool.allocated := by
    rintro pointer isThere rfl
    rw [kept.unallocated] at isThere
    cases isThere
  refine ⟨?_, ?_, ?_, length ▸ kept.roomy⟩
  · have own : (pool.insert text).bucketOf pool.allocated =
        pool.bucketIndex (hashString text) := by
      rw [bucketOf, new, bucketIndex, bucketIndex, length]
      rfl
    have before : Placed (pool.insert text).bucketOf
        (fun pointer => (pool.entries pointer).isSome) pool.table := by
      refine kept.placed.congr (fun pointer isThere => ?_) fun _ => Iff.rfl
      rw [bucketOf, bucketOf, older pointer (notNew pointer isThere), bucketIndex, bucketIndex,
        length]
    have isFresh : ¬ (pool.entries pool.allocated).isSome := by
      rw [kept.unallocated]
      exact Bool.false_ne_true
    have pushed := before.push isFresh (own ▸ bucketIndex_lt kept.roomy _)
    rw [pushNode, own] at pushed
    refine pushed.congr (fun _ _ => rfl) fun pointer => ?_
    by_cases same : pointer = pool.allocated
    · subst same
      rw [new]
      exact iff_of_true rfl (Or.inl rfl)
    · rw [older pointer same]
      exact (or_iff_right same).symm
  · intro pointer entry found
    by_cases same : pointer = pool.allocated
    · subst same
      obtain rfl := Option.some.inj (new.symm.trans found)
      exact ⟨rfl, nulFree, Nat.lt_succ_self _⟩
    · obtain ⟨hash, free, below⟩ :=
        kept.sound pointer entry ((older pointer same).symm.trans found)
      exact ⟨hash, free, Nat.lt_succ_of_lt below⟩
  · intro first second entry twin found twinFound equal
    by_cases firstNew : first = pool.allocated
    · by_cases secondNew : second = pool.allocated
      · rw [firstNew, secondNew]
      · subst firstNew
        obtain rfl := Option.some.inj (new.symm.trans found)
        have before := (older second secondNew).symm.trans twinFound
        exact (absent second twin before equal.symm).elim
    · have before := (older first firstNew).symm.trans found
      by_cases secondNew : second = pool.allocated
      · subst secondNew
        obtain rfl := Option.some.inj (new.symm.trans twinFound)
        exact (absent first entry before equal).elim
      · exact kept.shared first second entry twin before
          ((older second secondNew).symm.trans twinFound) equal

theorem remove (found : pool.entries pointer = some entry) :
    EntriesKept (pool.remove pointer (hashString entry.text) text) := by
  have rest : ∀ other, other ≠ pointer →
      (pool.remove pointer (hashString entry.text) text).entries other = pool.entries other :=
    fun other different => remove_entries_of_ne different _ _
  have gone := pool.remove_entries_self pointer (hashString entry.text) text
  have length := pool.remove_length pointer (hashString entry.text) text
  have before : ∀ other left,
      (pool.remove pointer (hashString entry.text) text).entries other = some left →
        pool.entries other = some left := by
    intro other left isLeft
    by_cases same : other = pointer
    · rw [same, gone] at isLeft
      cases isLeft
    · exact (rest other same).symm.trans isLeft
  refine ⟨?_, ?_, ?_, length ▸ kept.roomy⟩
  · have isPointer : ∀ other, (pool.entries other).isSome →
        pool.bucketOf other = pool.bucketIndex (hashString entry.text) →
          (decide (other = pointer) = true ↔ other = pointer) :=
      fun other _ _ => decide_eq_true_iff
    have erased := kept.placed.eraseP (kept.bucketOf_eq found) isPointer
    refine erased.congr (fun other there => ?_) fun other => ?_
    · rw [bucketOf, bucketOf, rest other there.2, bucketIndex, bucketIndex, length]
    · by_cases same : other = pointer
      · subst same
        rw [gone]
        exact iff_of_false Bool.false_ne_true fun there => there.2 rfl
      · rw [rest other same]
        exact (and_iff_left same).symm
  · exact fun other left isLeft => kept.sound other left (before other left isLeft)
  · intro first second left twin isLeft isTwin
    exact kept.shared first second left twin (before first left isLeft) (before second twin isTwin)

theorem pointers_nodup : pool.pointers.Nodup :=
  kept.placed.nodup_flatten

theorem pointers_insert (nulFree : NulFree text)
    (absent : ∀ pointer entry, pool.entries pointer = some entry → entry.text ≠ text) :
    (pool.insert text).pointers.Perm (pool.allocated :: pool.pointers) := by
  have isFresh : pool.allocated ∉ pool.pointers := by
    rw [kept.mem_pointers, kept.unallocated]
    exact Bool.false_ne_true
  apply (kept.insert nulFree absent).placed.flatten_perm
    (List.nodup_cons.mpr ⟨isFresh, kept.pointers_nodup⟩)
  intro pointer
  rw [List.mem_cons, kept.mem_pointers]
  by_cases same : pointer = pool.allocated
  · subst same
    rw [insert_entries_new]
    exact iff_of_true rfl (Or.inl rfl)
  · rw [or_iff_right same, insert_entries_of_ne same]

theorem pointers_remove (found : pool.entries pointer = some entry) :
    pool.pointers.Perm
      (pointer :: (pool.remove pointer (hashString entry.text) text).pointers) := by
  have after : EntriesKept (pool.remove pointer (hashString entry.text) text) :=
    kept.remove found
  have gone : pointer ∉ (pool.remove pointer (hashString entry.text) text).pointers := by
    rw [after.mem_pointers, remove_entries_self]
    exact Bool.false_ne_true
  apply kept.placed.flatten_perm (List.nodup_cons.mpr ⟨gone, after.pointers_nodup⟩)
  intro other
  rw [List.mem_cons, after.mem_pointers]
  by_cases same : other = pointer
  · subst same
    rw [found]
    exact iff_of_true rfl (Or.inl rfl)
  · rw [or_iff_right same, remove_entries_of_ne same]

theorem drop_eq (found : pool.entries pointer = some entry) :
    pool.drop pointer (hashString entry.text) =
      if entry.refCount - 1 = 0 then pool.remove pointer (hashString entry.text) entry.text
      else pool.setRefCount pointer (entry.refCount - 1) := by
  have inChain : pointer ∈ pool.chain (hashString entry.text) := by
    apply (kept.placed.mem_chain _ _).mpr
    exact ⟨Option.isSome_iff_exists.mpr ⟨entry, found⟩, kept.bucketOf_eq found⟩
  rw [StringPool.drop, if_pos inChain, found]

end Entries

end EntriesKept

theorem toNat_refCount_add_one {refCount : UInt32} (noWrap : refCount + 1 ≠ 0) :
    (refCount + 1).toNat = refCount.toNat + 1 := by
  have notZero : (refCount + 1).toNat ≠ 0 := fun zero => noWrap (UInt32.toNat_inj.mp zero)
  rw [UInt32.toNat_add] at notZero ⊢
  have bound := refCount.toNat_lt
  have one : (1 : UInt32).toNat = 1 := rfl
  omega

theorem toNat_refCount_sub_one {refCount : UInt32} (positive : 0 < refCount) :
    (refCount - 1).toNat = refCount.toNat - 1 := by
  have atLeastOne : (1 : UInt32) ≤ refCount :=
    UInt32.le_iff_toNat_le.mpr (UInt32.lt_iff_toNat_lt.mp positive)
  exact UInt32.toNat_sub_of_le refCount 1 atLeastOne

namespace References

variable (refs : References pool held)

include refs

theorem perm (same : other.Perm held) : References pool other where
  genuine handle member := refs.genuine handle (same.mem_iff.mp member)
  counted pointer entry found := by
    rw [same.countP_eq]
    exact refs.counted pointer entry found

theorem recount {refCount : UInt32} (found : pool.entries pointer = some entry)
    (genuine : ∀ handle ∈ other, handle ∈ held ∨ handle = ⟨entry.text, pointer⟩)
    (elsewhere : ∀ another, another ≠ pointer →
      other.countP (·.pointer = another) = held.countP (·.pointer = another))
    (counted : refCount.toNat = other.countP (·.pointer = pointer)) (positive : 0 < refCount) :
    References (pool.setRefCount pointer refCount) other where
  genuine handle member := by
    rw [setRefCount_entries found]
    by_cases same : handle.pointer = pointer
    · refine ⟨{ entry with refCount := refCount }, ?_, ?_⟩
      · rw [same, Function.update_self]
      · rcases genuine handle member with before | rfl
        · obtain ⟨twin, twinFound, sameText⟩ := refs.genuine handle before
          rw [same, found] at twinFound
          cases twinFound
          exact sameText
        · rfl
    · rw [Function.update_of_ne same]
      rcases genuine handle member with before | rfl
      · exact refs.genuine handle before
      · exact (same rfl).elim
  counted another after isAfter := by
    rw [setRefCount_entries found] at isAfter
    by_cases same : another = pointer
    · subst same
      rw [Function.update_self] at isAfter
      cases isAfter
      exact ⟨counted, positive⟩
    · rw [Function.update_of_ne same] at isAfter
      rw [elsewhere another same]
      exact refs.counted another after isAfter

theorem hit (found : pool.entries pointer = some entry) (noWrap : entry.refCount + 1 ≠ 0) :
    References (pool.hit pointer entry.refCount) (⟨entry.text, pointer⟩ :: held) := by
  have counts := refs.counted pointer entry found
  have recounted : References (pool.setRefCount pointer (entry.refCount + 1))
      (⟨entry.text, pointer⟩ :: held) := by
    apply refs.recount found
    · intro handle member
      rcases List.mem_cons.mp member with isNew | before
      · exact Or.inr isNew
      · exact Or.inl before
    · intro another different
      rw [List.countP_cons_of_neg (by simpa using Ne.symm different)]
    · rw [toNat_refCount_add_one noWrap, List.countP_cons_of_pos (by simp), counts.1]
    · exact UInt32.pos_iff_ne_zero.mpr noWrap
  exact { recounted with }

theorem insert (kept : EntriesKept pool) (text : Bytes) :
    References (pool.insert text) (⟨text, pool.allocated⟩ :: held) where
  genuine handle member := by
    rcases List.mem_cons.mp member with rfl | before
    · exact ⟨_, pool.insert_entries_new text, rfl⟩
    · obtain ⟨entry, found, sameText⟩ := refs.genuine handle before
      have older : handle.pointer ≠ pool.allocated := by
        intro same
        rw [same, kept.unallocated] at found
        cases found
      exact ⟨entry, (insert_entries_of_ne older text).trans found, sameText⟩
  counted pointer entry found := by
    by_cases same : pointer = pool.allocated
    · subst same
      obtain rfl := Option.some.inj ((pool.insert_entries_new text).symm.trans found)
      have none_held : held.countP (·.pointer = pool.allocated) = 0 := by
        apply List.countP_eq_zero.mpr
        intro handle member isNew
        obtain ⟨entry, isThere, -⟩ := refs.genuine handle member
        rw [of_decide_eq_true isNew, kept.unallocated] at isThere
        cases isThere
      rw [List.countP_cons_of_pos (by simp), none_held]
      exact ⟨rfl, UInt32.lt_iff_toNat_lt.mpr Nat.one_pos⟩
    · rw [List.countP_cons_of_neg (by simpa using Ne.symm same)]
      exact refs.counted pointer entry ((insert_entries_of_ne same text).symm.trans found)

end References

theorem References.drop (refs : References pool (handle :: held)) (kept : EntriesKept pool) :
    EntriesKept (pool.drop handle.pointer (hashString handle.text)) ∧
      References (pool.drop handle.pointer (hashString handle.text)) held := by
  obtain ⟨entry, found, sameText⟩ := refs.genuine handle List.mem_cons_self
  have counts := refs.counted handle.pointer entry found
  rw [List.countP_cons_of_pos (by simp)] at counts
  have fewer := toNat_refCount_sub_one counts.2
  rw [counts.1, Nat.add_sub_cancel] at fewer
  rw [← sameText, kept.drop_eq found]
  have elsewhere : ∀ another, another ≠ handle.pointer →
      held.countP (·.pointer = another) = (handle :: held).countP (·.pointer = another) := by
    intro another different
    rw [List.countP_cons_of_neg (by simpa using Ne.symm different)]
  split_ifs with last
  · rw [last] at fewer
    refine ⟨kept.remove found, ?_, ?_⟩
    · intro reference member
      obtain ⟨twin, twinFound, twinText⟩ :=
        refs.genuine reference (List.mem_cons_of_mem handle member)
      have different : reference.pointer ≠ handle.pointer := by
        intro same
        have none_left := List.countP_eq_zero.mp fewer.symm reference member
        exact none_left (decide_eq_true same)
      exact ⟨twin, (remove_entries_of_ne different _ _).trans twinFound, twinText⟩
    · intro another left isLeft
      by_cases same : another = handle.pointer
      · rw [same, remove_entries_self] at isLeft
        cases isLeft
      · rw [elsewhere another same]
        exact refs.counted another left ((remove_entries_of_ne same _ _).symm.trans isLeft)
  · refine ⟨kept.setRefCount found _, ?_⟩
    apply refs.recount found
    · exact fun reference member => Or.inl (List.mem_cons_of_mem handle member)
    · exact elsewhere
    · exact fewer
    · exact UInt32.pos_iff_ne_zero.mpr last

end StringPool

end Jdbx
