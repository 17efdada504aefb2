import Jdbx.Storage.BTree

/-!
# Leaves

What a leaf says as a list of keys and values, and what the functions that read
and change leaves do to that list.
-/

namespace Jdbx

open Library

section Fields

variable {node : Memory} {offset : Nat} {bytes : Bytes} {count : Nat}

theorem readNat_writeBytes_entries {field width : Nat} (inHeader : field + width ≤ nodeHeaderSize)
    (above : nodeHeaderSize ≤ offset) :
    readNat (writeBytes node offset bytes) field width = readNat node field width :=
  readNat_writeBytes_of_disjoint (Or.inl (inHeader.trans above))

/-- The fields that the tree functions read are the same. -/
structure SameFields (node other : Memory) : Prop where
  level : nodeLevel other = nodeLevel node
  count : numKeys other = numKeys node
  size : totalSize other = totalSize node
  right : rightSibling other = rightSibling node
  parent : parentPage other = parentPage node

theorem sameFields_writeBytes (node : Memory) (bytes : Bytes) (above : nodeHeaderSize ≤ offset) :
    SameFields node (writeBytes node offset bytes) where
  level := readNat_writeBytes_entries (by decide) above
  count := readNat_writeBytes_entries (by decide) above
  size := readNat_writeBytes_entries (by decide) above
  right := congrArg UInt64.ofNat (readNat_writeBytes_entries (by decide) above)
  parent := congrArg UInt64.ofNat (readNat_writeBytes_entries (by decide) above)

end Fields

theorem SameFields.trans {node other third : Memory} (first : SameFields node other)
    (second : SameFields other third) : SameFields node third where
  level := second.level.trans first.level
  count := second.count.trans first.count
  size := second.size.trans first.size
  right := second.right.trans first.right
  parent := second.parent.trans first.parent

@[simp]
theorem totalSize_setNumKeys (node : Memory) (count : Nat) :
    totalSize (setNumKeys node count) = totalSize node :=
  readNat_writeNat_of_disjoint (by decide)

/-! ## Entries of a leaf -/

/-- The value of a key in a leaf: its bytes, or the overflow page where it starts. -/
inductive StoredValue where
  | inline (value : Bytes)
  | overflow (valueSize : Nat) (page : { page : UInt64 // page ≠ 0 })

namespace StoredValue

def bytes : StoredValue → Bytes
  | inline value => value
  | overflow _ _ => []

def valueSize : StoredValue → Nat
  | inline value => value.length
  | overflow valueSize _ => valueSize

def page : StoredValue → UInt64
  | inline _ => 0
  | overflow _ page => page

end StoredValue

/-- The `btree_entry_t` of a leaf entry. -/
def entryHeader (entry : Bytes × StoredValue) : BTreeEntry where
  keySize := entry.1.length
  valueSize := entry.2.valueSize
  overflowPage := entry.2.page

def leafEntryBytes (entry : Bytes × StoredValue) : Bytes :=
  (entryHeader entry).bytes ++ (entry.1 ++ entry.2.bytes)

def leafBytes (entries : List (Bytes × StoredValue)) : Bytes :=
  entries.flatMap leafEntryBytes

def usedSize (entries : List (Bytes × StoredValue)) : Nat :=
  (leafBytes entries).length

@[simp]
theorem length_entryHeader_bytes (entry : BTreeEntry) : entry.bytes.length = entryHeaderSize := by
  simp [BTreeEntry.bytes, entryHeaderSize]

theorem length_leafEntryBytes (entry : Bytes × StoredValue) :
    (leafEntryBytes entry).length = entryHeaderSize + entry.1.length + entry.2.bytes.length := by
  simp [leafEntryBytes, Nat.add_assoc]

@[simp]
theorem usedSize_nil : usedSize [] = 0 :=
  rfl

@[simp]
theorem usedSize_cons (entry : Bytes × StoredValue) (entries : List (Bytes × StoredValue)) :
    usedSize (entry :: entries) = (leafEntryBytes entry).length + usedSize entries := by
  simp [usedSize, leafBytes]

@[simp]
theorem usedSize_append (front back : List (Bytes × StoredValue)) :
    usedSize (front ++ back) = usedSize front + usedSize back := by
  simp [usedSize, leafBytes]

theorem leafBytes_append (front back : List (Bytes × StoredValue)) :
    leafBytes (front ++ back) = leafBytes front ++ leafBytes back := by
  simp [leafBytes]

theorem leafBytes_cons (entry : Bytes × StoredValue) (entries : List (Bytes × StoredValue)) :
    leafBytes (entry :: entries) = leafEntryBytes entry ++ leafBytes entries := by
  simp [leafBytes]

/-- The page is a leaf without siblings and without a parent that holds the
entries, of which it counts `total` bytes. -/
structure LeafPage (node : Memory) (entries : List (Bytes × StoredValue)) (total : Nat) :
    Prop where
  level : nodeLevel node = 0
  count : numKeys node = entries.length
  size : totalSize node = total
  right : rightSibling node = 0
  parent : parentPage node = 0
  holds : Holds node nodeHeaderSize (leafBytes entries)
  counted : nodeHeaderSize + usedSize entries ≤ total
  inPage : total ≤ pageSize
  few : entries.length ≤ btreeMaxKeys

namespace LeafPage

variable {node : Memory} {entries front back : List (Bytes × StoredValue)} {total : Nat}
  {entry : Bytes × StoredValue}

theorem holds_at (leaf : LeafPage node (front ++ entry :: back) total) :
    Holds node (nodeHeaderSize + usedSize front) (leafEntryBytes entry) := by
  have holds := leaf.holds
  rw [leafBytes_append, leafBytes_cons, holds_append, holds_append] at holds
  exact holds.2.1

theorem inside (leaf : LeafPage node (front ++ entry :: back) total) :
    nodeHeaderSize + usedSize front + (entryHeaderSize + entry.1.length) +
      entry.2.bytes.length + usedSize back ≤ pageSize := by
  have counted := leaf.counted.trans leaf.inPage
  rw [usedSize_append, usedSize_cons, length_leafEntryBytes] at counted
  omega

/-- What `btree_entry_t` of the entry is in the page. -/
def loaded (entry : Bytes × StoredValue) : BTreeEntry where
  keySize := entry.1.length
  valueSize := entry.2.valueSize % 2 ^ 32
  overflowPage := entry.2.page

theorem keySize_loaded (entry : Bytes × StoredValue) : (loaded entry).keySize = entry.1.length :=
  rfl

theorem overflowPage_loaded (entry : Bytes × StoredValue) :
    (loaded entry).overflowPage = entry.2.page :=
  rfl

theorem loadEntry_at (leaf : LeafPage node (front ++ entry :: back) total) :
    loadEntry node (nodeHeaderSize + usedSize front) = some (loaded entry) := by
  have inside := leaf.inside
  have holds := leaf.holds_at
  rw [leafEntryBytes, holds_append, BTreeEntry.bytes, holds_append, holds_append] at holds
  obtain ⟨⟨⟨keySize, valueSize⟩, overflowPage⟩, _⟩ := holds
  simp only [length_littleEndian, List.length_append] at valueSize overflowPage
  simp only [pageSize, nodeHeaderSize, entryHeaderSize] at inside
  have smallKey : entry.1.length < 256 ^ 4 := by omega
  rw [loadEntry, if_pos (by simp only [nodeHeaderSize, entryHeaderSize, pageSize]; omega),
    keySize.readNat smallKey, valueSize.readNat_mod,
    overflowPage.readNat (UInt64.toNat_lt _), UInt64.ofNat_toNat]
  rfl

theorem leafSize_loaded (leaf : LeafPage node (front ++ entry :: back) total) :
    (loaded entry).leafSize = (leafEntryBytes entry).length := by
  have inside := leaf.inside
  rw [length_leafEntryBytes, BTreeEntry.leafSize]
  obtain ⟨key, stored⟩ := entry
  cases stored with
  | inline value =>
      simp only [StoredValue.bytes, pageSize, nodeHeaderSize, entryHeaderSize] at inside
      simp [loaded, StoredValue.page, StoredValue.valueSize, StoredValue.bytes,
        Nat.mod_eq_of_lt (show value.length < 4294967296 by omega)]
  | overflow valueSize page => simp [loaded, StoredValue.page, StoredValue.bytes, page.property]

theorem loadKey_at (leaf : LeafPage node (front ++ entry :: back) total) :
    loadBytes node (nodeHeaderSize + usedSize front + entryHeaderSize)
      (loaded entry).keySize = some entry.1 := by
  have inside := leaf.inside
  have holds := leaf.holds_at
  rw [leafEntryBytes, holds_append, holds_append, length_entryHeader_bytes] at holds
  rw [loadBytes, if_pos (by simp only [loaded]; omega)]
  exact congrArg some holds.2.1

theorem getKeyPtr_take (leaf : LeafPage node entries total) :
    ∀ {index : Nat}, index ≤ entries.length →
      getKeyPtr node index = some (nodeHeaderSize + usedSize (entries.take index)) := by
  intro index
  induction index with
  | zero =>
      intro _
      rfl
  | succ index ih =>
      intro bound
      have inside : index < entries.length := bound
      have split : entries.take index ++ entries[index] :: entries.drop (index + 1) = entries := by
        rw [← List.drop_eq_getElem_cons inside, List.take_append_drop]
      have atIndex := split.symm ▸ leaf
      rw [getKeyPtr, ih inside.le]
      simp only [Option.bind_eq_bind, Option.bind_some, atIndex.loadEntry_at, BTreeEntry.size,
        leaf.level, if_true, atIndex.leafSize_loaded]
      rw [List.take_succ_eq_append_getElem inside, usedSize_append, usedSize_cons,
        usedSize_nil, Nat.add_zero, Nat.add_assoc]
      rfl

theorem getKeyPtr_at (leaf : LeafPage node (front ++ back) total) :
    getKeyPtr node front.length = some (nodeHeaderSize + usedSize front) := by
  rw [leaf.getKeyPtr_take (by simp), List.take_left]

theorem entriesSpan_take (leaf : LeafPage node (front ++ back) total) :
    ∀ {count : Nat}, count ≤ back.length →
      entriesSpan node BTreeEntry.leafSize front.length count =
        some (usedSize (back.take count)) := by
  intro count
  induction count with
  | zero =>
      intro _
      rfl
  | succ count ih =>
      intro bound
      have inside : count < back.length := bound
      have split : (front ++ back.take count) ++ back[count] :: back.drop (count + 1) =
          front ++ back := by
        rw [← List.drop_eq_getElem_cons inside, List.append_assoc, List.take_append_drop]
      have atCount := split.symm ▸ leaf
      have reached : (front ++ back.take count).length = front.length + count := by
        rw [List.length_append, List.length_take_of_le inside.le]
      have pointer := atCount.getKeyPtr_at
      rw [reached] at pointer
      rw [entriesSpan, ih inside.le]
      simp only [Option.bind_eq_bind, Option.bind_some, pointer, atCount.loadEntry_at,
        atCount.leafSize_loaded]
      rw [List.take_succ_eq_append_getElem inside, usedSize_append, usedSize_cons,
        usedSize_nil, Nat.add_zero]
      rfl

theorem entriesSpan_at (leaf : LeafPage node (front ++ back) total) :
    entriesSpan node BTreeEntry.leafSize front.length back.length = some (usedSize back) := by
  rw [leaf.entriesSpan_take (Nat.le_refl _), List.take_length]

section Search

variable {compare : Bytes → Bytes → Ordering} [Std.TransCmp compare] [Std.LawfulEqCmp compare]

theorem findKeyPosition_located (leaf : LeafPage node entries total)
    (ascending : Ascending compare entries) (key : Bytes) :
    ∃ position found, findKeyPosition compare node key = some (position, found) ∧
      Located compare key entries position found := by
  rw [findKeyPosition, leaf.count]
  refine binarySearch_located ascending (fun index inside => ?_) (by omega) (Nat.zero_le _)
    (Nat.le_refl _) (by simp) (by simp)
  have split : entries.take index ++ entries[index] :: entries.drop (index + 1) = entries := by
    rw [← List.drop_eq_getElem_cons inside, List.take_append_drop]
  have atIndex := split.symm ▸ leaf
  simp only [Option.bind_eq_bind, leaf.getKeyPtr_take inside.le, Option.bind_some,
    atIndex.loadEntry_at, atIndex.loadKey_at]
  rfl

end Search

/-! ## Changes -/

theorem of_changed (leaf : LeafPage node entries total) {base : Memory}
    (same : SameFields node base) {changed : List (Bytes × StoredValue)} {newTotal count size : Nat}
    (holds : Holds base nodeHeaderSize (leafBytes changed))
    (counted : nodeHeaderSize + usedSize changed ≤ newTotal) (inPage : newTotal ≤ pageSize)
    (few : changed.length ≤ btreeMaxKeys) (newCount : count % 256 ^ 2 = changed.length)
    (newSize : size % 256 ^ 4 = newTotal) :
    LeafPage (setTotalSize (setNumKeys base count) size) changed newTotal where
  level := by
    rw [← leaf.level, ← same.level]
    simp (disch := decide) only [nodeLevel, setTotalSize, setNumKeys,
      readNat_writeNat_of_disjoint]
  count := by
    rw [← newCount]
    simp (disch := decide) only [numKeys, setTotalSize, setNumKeys,
      readNat_writeNat_of_disjoint]
    exact (holds_writeBytes_self base 56 (littleEndian 2 count)).readNat_mod
  size := by
    rw [← newSize]
    exact (holds_writeBytes_self (setNumKeys base count) 60 (littleEndian 4 size)).readNat_mod
  right := by
    rw [← leaf.right, ← same.right]
    simp (disch := decide) only [rightSibling, setTotalSize, setNumKeys,
      readNat_writeNat_of_disjoint]
  parent := by
    rw [← leaf.parent, ← same.parent]
    simp (disch := decide) only [parentPage, setTotalSize, setNumKeys,
      readNat_writeNat_of_disjoint]
  holds := by
    have kept : Holds (setNumKeys base count) nodeHeaderSize (leafBytes changed) :=
      holds.writeNat (Or.inr (by decide))
    exact kept.writeNat (Or.inr (by decide))
  counted := counted
  inPage := inPage
  few := few

end LeafPage

theorem memmove_inside {node : Memory} {target source length : Nat}
    (readable : source + length ≤ pageSize) (writable : target + length ≤ pageSize) :
    memmove node target source length =
      some (writeBytes node target (readBytes node source length)) := by
  rw [memmove]
  split_ifs with nothing
  · rw [nothing, readBytes_zero, writeBytes_nil]
  · rw [loadBytes, if_pos readable, Option.bind_some, memcpy, length_readBytes, if_pos writable]

theorem memcpy_inside {node : Memory} {offset : Nat} {bytes : Bytes}
    (writable : offset + bytes.length ≤ pageSize) :
    memcpy node offset bytes = some (writeBytes node offset bytes) :=
  if_pos writable

/-- How a value is stored whose overflow pages start at `page`, or that has none. -/
def storeValue (value : Bytes) (page : UInt64) : StoredValue :=
  if large : page = 0 then .inline value else .overflow value.length ⟨page, large⟩

theorem entryHeader_storeValue (key value : Bytes) (page : UInt64) :
    entryHeader (key, storeValue value page) =
      { keySize := key.length, valueSize := value.length, overflowPage := page } := by
  rw [storeValue]
  split_ifs with large
  · rw [large]
    rfl
  · rfl

theorem storeValue_bytes (value : Bytes) (page : UInt64) :
    (storeValue value page).bytes = if page = 0 then value else [] := by
  rw [storeValue]
  split_ifs <;> rfl

namespace LeafPage

variable {node : Memory} {front back : List (Bytes × StoredValue)} {total : Nat}

theorem writeBytes_entry (node : Memory) (offset : Nat) (entry : Bytes × StoredValue) :
    writeBytes (writeBytes (writeBytes node offset (entryHeader entry).bytes)
      (offset + entryHeaderSize) entry.1) (offset + entryHeaderSize + entry.1.length)
        entry.2.bytes = writeBytes node offset (leafEntryBytes entry) := by
  rw [leafEntryBytes, ← writeBytes_append node offset, ← writeBytes_append _ _ entry.1,
    length_entryHeader_bytes]

theorem insertEntryAt_spec (leaf : LeafPage node (front ++ back) total) (key value : Bytes)
    (page : UInt64)
    (fits : total + (leafEntryBytes (key, storeValue value page)).length ≤ pageSize)
    (room : (front ++ back).length < btreeMaxKeys) :
    ∃ inserted, insertEntryAt node front.length key value page = some inserted ∧
      LeafPage inserted (front ++ (key, storeValue value page) :: back)
        (total + (leafEntryBytes (key, storeValue value page)).length) := by
  have counted := leaf.counted
  have holds := leaf.holds
  have header := entryHeader_storeValue key value page
  have stored := storeValue_bytes value page
  generalize storeValue value page = storedValue at fits header stored ⊢
  have entryLength := length_leafEntryBytes (key, storedValue)
  generalize entrySize : (leafEntryBytes (key, storedValue)).length = size at fits entryLength ⊢
  rw [usedSize_append] at counted
  rw [leafBytes_append, holds_append] at holds
  have moved : readBytes node (nodeHeaderSize + usedSize front) (usedSize back) =
      leafBytes back := holds.2
  let shifted := writeBytes node (nodeHeaderSize + usedSize front + size) (leafBytes back)
  let base :=
    writeBytes shifted (nodeHeaderSize + usedSize front) (leafEntryBytes (key, storedValue))
  have sameShifted : SameFields node shifted := sameFields_writeBytes node _ (by omega)
  have same : SameFields node base :=
    sameShifted.trans (sameFields_writeBytes shifted _ (by omega))
  simp only at entryLength
  refine ⟨setTotalSize (setNumKeys base (numKeys base + 1)) (totalSize base + size), ?_, ?_⟩
  · have inside := leaf.inPage
    simp only [insertEntryAt, ← stored, ← header, Option.bind_eq_bind, leaf.getKeyPtr_at,
      Option.bind_some, leaf.count, List.length_append, Nat.add_sub_cancel_left,
      leaf.entriesSpan_at, ← entryLength]
    rw [memmove_inside (by omega) (by omega), moved, Option.bind_some,
      memcpy_inside (by rw [length_entryHeader_bytes]; omega), Option.bind_some,
      memcpy_inside (by omega), Option.bind_some, memcpy_inside (by omega), Option.bind_some,
      totalSize_setNumKeys]
    have whole := writeBytes_entry shifted (nodeHeaderSize + usedSize front) (key, storedValue)
    simp only at whole
    rw [whole]
    rfl
  · apply leaf.of_changed same
    · have before : Holds shifted nodeHeaderSize (leafBytes front) :=
        holds.1.writeBytes (Or.inl (Nat.le_add_right _ _))
      have behind : Holds shifted (nodeHeaderSize + usedSize front + size) (leafBytes back) :=
        holds_writeBytes_self node _ _
      rw [leafBytes_append, leafBytes_cons, holds_append, holds_append]
      refine ⟨before.writeBytes (Or.inl (Nat.le_refl _)), holds_writeBytes_self shifted _ _, ?_⟩
      rw [entrySize]
      exact behind.writeBytes (Or.inr (by rw [entrySize]))
    · rw [usedSize_append, usedSize_cons, entrySize]
      omega
    · exact fits
    · simp only [List.length_append, List.length_cons] at room ⊢
      omega
    · rw [same.count, leaf.count]
      simp only [List.length_append, List.length_cons, btreeMaxKeys] at room ⊢
      omega
    · rw [same.size, leaf.size]
      simp only [pageSize] at fits
      omega

theorem removeEntryAt_spec {entry : Bytes × StoredValue}
    (leaf : LeafPage node (front ++ entry :: back) total) :
    ∃ removed, removeEntryAt node front.length = some removed ∧
      LeafPage removed (front ++ back) (total - (leafEntryBytes entry).length) := by
  have counted := leaf.counted
  have inside := leaf.inPage
  have few := leaf.few
  have holds := leaf.holds
  have entryLength := length_leafEntryBytes entry
  generalize entrySize : (leafEntryBytes entry).length = size at entryLength ⊢
  rw [usedSize_append, usedSize_cons, entrySize] at counted
  rw [leafBytes_append, leafBytes_cons, holds_append, holds_append, entrySize] at holds
  obtain ⟨before, _, behind⟩ := holds
  have moved : readBytes node (nodeHeaderSize + usedSize front + size) (usedSize back) =
      leafBytes back := behind
  have span : entriesSpan node BTreeEntry.leafSize (front.length + 1) back.length =
      some (usedSize back) := by
    have split : front ++ entry :: back = (front ++ [entry]) ++ back := by simp
    have atBack := (split ▸ leaf).entriesSpan_at
    rwa [List.length_append] at atBack
  have remaining : numKeys node - (front.length + 1) = back.length := by
    rw [leaf.count]
    simp only [List.length_append, List.length_cons]
    omega
  let base := writeBytes node (nodeHeaderSize + usedSize front) (leafBytes back)
  have same : SameFields node base := sameFields_writeBytes node _ (by omega)
  refine ⟨setTotalSize (setNumKeys base (numKeys base + 2 ^ 16 - 1))
    (totalSize base + 2 ^ 32 - size % 2 ^ 32), ?_, ?_⟩
  · simp only [removeEntryAt, Option.bind_eq_bind, leaf.getKeyPtr_at, Option.bind_some,
      leaf.loadEntry_at, remaining, span, leaf.leafSize_loaded, entrySize]
    rw [memmove_inside (by omega) (by omega), moved, Option.bind_some, totalSize_setNumKeys]
    rfl
  · apply leaf.of_changed same
    · have kept : Holds base nodeHeaderSize (leafBytes front) :=
        before.writeBytes (Or.inl (Nat.le_refl _))
      rw [leafBytes_append, holds_append]
      exact ⟨kept, holds_writeBytes_self node _ _⟩
    · rw [usedSize_append]
      omega
    · omega
    · simp only [List.length_append, List.length_cons] at few ⊢
      omega
    · rw [same.count, leaf.count]
      simp only [List.length_append, List.length_cons, btreeMaxKeys] at few ⊢
      omega
    · rw [same.size, leaf.size]
      simp only [pageSize] at inside
      omega

section Values

variable {key value : Bytes}

theorem of_rewritten {entries changed : List (Bytes × StoredValue)}
    (leaf : LeafPage node entries total) {base : Memory} (same : SameFields node base)
    (holds : Holds base nodeHeaderSize (leafBytes changed))
    (counted : usedSize changed ≤ usedSize entries)
    (length : changed.length = entries.length) : LeafPage base changed total where
  level := same.level.trans leaf.level
  count := by rw [same.count, leaf.count, length]
  size := same.size.trans leaf.size
  right := same.right.trans leaf.right
  parent := same.parent.trans leaf.parent
  holds := holds
  counted := (Nat.add_le_add_left counted _).trans leaf.counted
  inPage := leaf.inPage
  few := length ▸ leaf.few

theorem valueSize_loaded (leaf : LeafPage node (front ++ (key, .inline value) :: back) total) :
    (loaded (key, .inline value)).valueSize = value.length := by
  have inside := leaf.inside
  simp only [StoredValue.bytes, pageSize, nodeHeaderSize, entryHeaderSize] at inside
  exact Nat.mod_eq_of_lt (by simp only [StoredValue.valueSize]; omega)

theorem loadValue_at (leaf : LeafPage node (front ++ (key, .inline value) :: back) total) :
    loadBytes node (nodeHeaderSize + usedSize front + entryHeaderSize + key.length)
      (loaded (key, .inline value)).valueSize = some value := by
  have inside := leaf.inside
  have holds := leaf.holds_at
  rw [leafEntryBytes, holds_append, holds_append, length_entryHeader_bytes] at holds
  simp only [StoredValue.bytes, pageSize, nodeHeaderSize, entryHeaderSize] at inside
  rw [leaf.valueSize_loaded, loadBytes,
    if_pos (by simp only [pageSize, nodeHeaderSize, entryHeaderSize]; omega)]
  exact congrArg some holds.2.2

/-- A value is overwritten by one of its length, or a shorter one if nothing is
behind it. -/
theorem updateInPlace_spec {old : Bytes}
    (leaf : LeafPage node (front ++ (key, .inline old) :: back) total)
    (shorter : value.length ≤ old.length)
    (alike : value.length = old.length ∨ back = []) :
    ∃ updated, updateInPlace node (nodeHeaderSize + usedSize front)
        (loaded (key, .inline old)) value = some updated ∧
      LeafPage updated (front ++ (key, .inline value) :: back) total := by
  have inside := leaf.inside
  have holds := leaf.holds
  rw [leafBytes_append, leafBytes_cons, holds_append, holds_append] at holds
  obtain ⟨before, atEntry, behind⟩ := holds
  have oldLength := length_leafEntryBytes (key, .inline old)
  have newLength := length_leafEntryBytes (key, .inline value)
  simp only [StoredValue.bytes, entryHeaderSize] at inside oldLength newLength
  let sized := writeNat node (nodeHeaderSize + usedSize front + 4) 4 value.length
  let base := writeBytes sized (nodeHeaderSize + usedSize front + entryHeaderSize + key.length)
    value
  have same : SameFields node base :=
    SameFields.trans (sameFields_writeBytes node _ (by omega))
      (sameFields_writeBytes sized _ (by omega))
  have kept : ∀ {address : Nat} {bytes : Bytes}, Holds node address bytes →
      address + bytes.length ≤ nodeHeaderSize + usedSize front + 4 ∨
        nodeHeaderSize + usedSize front + 8 ≤ address →
      address + bytes.length ≤ nodeHeaderSize + usedSize front + 16 + key.length ∨
        nodeHeaderSize + usedSize front + 16 + key.length + value.length ≤ address →
      Holds base address bytes :=
    fun holds missesSize missesValue => (holds.writeNat missesSize).writeBytes missesValue
  have newEntry : Holds base (nodeHeaderSize + usedSize front)
      (leafEntryBytes (key, .inline value)) := by
    rw [leafEntryBytes, BTreeEntry.bytes] at atEntry ⊢
    simp only [holds_append, List.length_append, length_littleEndian, entryHeader,
      StoredValue.bytes, StoredValue.valueSize, StoredValue.page] at atEntry ⊢
    obtain ⟨⟨⟨keySize, _⟩, overflowPage⟩, ownKey, _⟩ := atEntry
    refine ⟨⟨⟨kept keySize ?_ ?_, ?_⟩, kept overflowPage ?_ ?_⟩, kept ownKey ?_ ?_, ?_⟩
    · simp
    · simp only [length_littleEndian]
      omega
    · have written : Holds sized (nodeHeaderSize + usedSize front + 4)
          (littleEndian 4 value.length) :=
        holds_writeBytes_self node _ _
      refine written.writeBytes (Or.inl ?_)
      simp only [length_littleEndian, entryHeaderSize]
      omega
    · simp
    · simp only [length_littleEndian]
      omega
    · omega
    · exact Or.inl (Nat.le_refl _)
    · exact holds_writeBytes_self sized _ _
  refine ⟨base, ?_, ?_⟩
  · rw [updateInPlace, memcpy_inside (by simp only [loaded, entryHeaderSize]; omega)]
    rfl
  · apply leaf.of_rewritten same
    · rw [leafBytes_append, leafBytes_cons, holds_append, holds_append]
      refine ⟨kept before (Or.inl ?_) (Or.inl ?_), newEntry, ?_⟩
      · exact Nat.le_add_right _ 4
      · simp only [usedSize]
        omega
      · rcases alike with sameLength | rfl
        · rw [newLength, sameLength, ← oldLength]
          apply kept behind
          · right
            simp only [usedSize, oldLength]
            omega
          · right
            simp only [usedSize, oldLength]
            omega
        · rfl
    · simp only [usedSize_append, usedSize_cons, oldLength, newLength]
      omega
    · simp

end Values

end LeafPage

end Jdbx
