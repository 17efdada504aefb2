import Jdbx.Storage.BTreeLeaf

/-!
# Trees of one leaf

A split drops the middle entry of a leaf, and `get_key_ptr` takes the left-most
child of an internal node for an entry, so the functions agree as long as the root
is a leaf.  An insertion and a deletion there are changes of a sorted table.
-/

namespace Jdbx

open Library

namespace BTree

theorem page_write_self {tree : BTree} {number : UInt64} {old : Memory}
    (held : tree.page number = some old) (node : Memory) :
    (tree.write number node).page number = some node := by
  rw [page] at held
  simp [page, write, PageStore.write, held]

theorem page_write_of_ne {tree : BTree} {number other : UInt64} (different : other ≠ number)
    (node : Memory) : (tree.write number node).page other = tree.page other :=
  if_neg different

theorem alloc_spec {tree allocated : BTree} {type : Nat} {number : UInt64}
    (granted : tree.alloc type = some (number, allocated)) :
    tree.page number = none ∧ number ≠ 0 ∧ (allocated.page number).isSome ∧
      allocated.rootPage = tree.rootPage ∧
        ∀ other, other ≠ number → allocated.page other = tree.page other := by
  obtain ⟨rootPage, pages, supply, distinct, nonzero, fresh⟩ := tree
  cases supply with
  | nil => cases granted
  | cons next supply =>
    simp only [alloc, PageStore.alloc, Option.map_some, Option.some.injEq, Prod.mk.injEq]
      at granted
    obtain ⟨rfl, rfl⟩ := granted
    refine ⟨fresh next.1 List.mem_cons_self, ?_, ?_, rfl, fun other different => if_neg different⟩
    · intro zero
      exact nonzero (zero ▸ List.mem_cons_self)
    · simp [page]

theorem link_spec {tree : BTree} {number prevPage : UInt64} {node : Memory}
    (held : tree.page number = some node) (notPrev : prevPage ≠ number) (pageNum : UInt64) :
    (tree.link prevPage pageNum).page number = some node ∧
      (tree.link prevPage pageNum).rootPage = tree.rootPage := by
  rw [link]
  split_ifs
  · exact ⟨held, rfl⟩
  · split
    · exact ⟨(page_write_of_ne notPrev.symm _).trans held, rfl⟩
    · exact ⟨held, rfl⟩

end BTree

theorem writeOverflowPages_spec (value : Bytes) {number : UInt64} {node : Memory} :
    ∀ {needed : Nat} {remaining : Bytes} {firstPage prevPage : UInt64} {tree : BTree},
      tree.page number = some node → prevPage ≠ number →
        ∃ page written, writeOverflowPages value needed remaining firstPage prevPage tree =
            some (page, written) ∧
          written.page number = some node ∧ written.rootPage = tree.rootPage := by
  intro needed
  induction needed with
  | zero =>
    intro remaining firstPage prevPage tree held _
    exact ⟨firstPage, tree, rfl, held, rfl⟩
  | succ needed ih =>
    intro remaining firstPage prevPage tree held notPrev
    rw [writeOverflowPages]
    cases granted : tree.alloc pageTypeOverflow with
    | none => exact ⟨0, tree, rfl, held, rfl⟩
    | some result =>
      obtain ⟨pageNum, allocated⟩ := result
      obtain ⟨unused, _, inUse, sameRoot, others⟩ := BTree.alloc_spec granted
      have notNew : number ≠ pageNum := by
        rintro rfl
        rw [unused] at held
        cases held
      obtain ⟨page, newHeld⟩ := Option.isSome_iff_exists.mp inUse
      simp only [newHeld, Option.bind_eq_bind]
      rw [memcpy_inside (by simp [pageHeaderSize, pageSize]; omega), Option.bind_some]
      have kept : allocated.page number = some node := (others number notNew).trans held
      obtain ⟨linkedHeld, linkedRoot⟩ := BTree.link_spec kept notPrev pageNum
      generalize allocated.link prevPage pageNum = linked at linkedHeld linkedRoot ⊢
      have stays : ∀ content, (linked.write pageNum content).page number = some node :=
        fun content => (BTree.page_write_of_ne notNew content).trans linkedHeld
      obtain ⟨first, written, writes, keeps, root⟩ :=
        ih (stays _) notNew.symm
      exact ⟨first, written, writes, keeps, root.trans (linkedRoot.trans sameRoot)⟩

theorem writeOverflowValue_spec (value : Bytes) {tree : BTree} {number : UInt64} {node : Memory}
    (held : tree.page number = some node) (nonzero : 0 ≠ number) :
    ∃ page written, writeOverflowValue tree value = some (page, written) ∧
      written.page number = some node ∧ written.rootPage = tree.rootPage :=
  writeOverflowPages_spec value held nonzero

/-- What an entry takes that `jdbx_btree_insert` puts into a leaf. -/
def storedSize (key value : Bytes) : Nat :=
  entryHeaderSize + key.length + if overflowThreshold < value.length then 0 else value.length

/-- Where `find_key_position` ends in the root, and the entry it finds there. -/
structure RootPosition where
  node : Memory
  position : Nat
  entry : Option BTreeEntry

def rootPosition (compare : Bytes → Bytes → Ordering) (tree : BTree) (key : Bytes) :
    Option RootPosition := do
  let node ← tree.page tree.rootPage
  let (position, found) ← findKeyPosition compare node key
  let entry := if found then (getKeyPtr node position).bind (loadEntry node) else none
  return { node, position, entry }

namespace RootPosition

variable (root : RootPosition)

def takesInPlace (value : Bytes) : Bool :=
  root.entry.any fun entry => value.length ≤ entry.valueSize ∧ entry.overflowPage = 0

/-- The root need not be split: it is not full, and has room for a new entry once
the old one is deleted. -/
def HasRoom (key value : Bytes) : Prop :=
  nodeIsFull root.node = false ∧
    (root.takesInPlace value = false →
      totalSize root.node - (root.entry.map BTreeEntry.leafSize).getD 0 + storedSize key value ≤
        pageSize)

instance (key value : Bytes) : Decidable (root.HasRoom key value) :=
  inferInstanceAs (Decidable (_ ∧ (_ → _)))

/-- An entry is overwritten by one of its size; or, unless `exact` is asked for, by a
shorter one where it is the last of the root. -/
def KeepsEntries (exact : Bool) (value : Bytes) : Prop :=
  root.takesInPlace value = true →
    root.entry.map BTreeEntry.valueSize = some value.length ∨
      exact = false ∧ root.position + 1 = numKeys root.node

instance (exact : Bool) (value : Bytes) : Decidable (root.KeepsEntries exact value) :=
  inferInstanceAs (Decidable (_ → _ ∨ _ ∧ _))

end RootPosition

/-! ## A tree of one leaf -/

section Operations

variable {compare : Bytes → Bytes → Ordering} {tree : BTree}
  {entries front back : List (Bytes × StoredValue)} {total : Nat} {key value : Bytes}

/-- The root of the tree is a leaf that holds the entries in their order. -/
structure LeafTree (compare : Bytes → Bytes → Ordering) (tree : BTree)
    (entries : List (Bytes × StoredValue)) (total : Nat) : Prop where
  nonzero : tree.rootPage ≠ 0
  leaf : ∃ node, tree.page tree.rootPage = some node ∧ LeafPage node entries total
  ascending : Ascending compare entries

theorem LeafTree.write (leafTree : LeafTree compare tree entries total) {node : Memory}
    {changed : List (Bytes × StoredValue)} {newTotal : Nat}
    (leaf : LeafPage node changed newTotal) (ascending : Ascending compare changed) :
    LeafTree compare (tree.write tree.rootPage node) changed newTotal where
  nonzero := leafTree.nonzero
  leaf := by
    obtain ⟨old, held, _⟩ := leafTree.leaf
    exact ⟨node, BTree.page_write_self held node, leaf⟩
  ascending := ascending

/-- What putting a new key into the leaf may do. -/
inductive AddEffect (key value : Bytes) :
    List (Bytes × StoredValue) → Nat → Bool → List (Bytes × StoredValue) → Nat → Prop where
  | added {front back : List (Bytes × StoredValue)} {total : Nat} (page : UInt64)
      (inline : page = 0 ∨ overflowThreshold < value.length)
      (absent : getEntry key (front ++ back) = none) :
      AddEffect key value (front ++ back) total true (front ++ (key, storeValue value page) :: back)
        (total + (leafEntryBytes (key, storeValue value page)).length)
  | refused {entries : List (Bytes × StoredValue)} {total : Nat}
      (large : overflowThreshold < value.length) :
      AddEffect key value entries total false entries total

/-- What an insertion may do.  Where `exact` is not asked for, a shorter value may
overwrite the last one of the leaf. -/
inductive InsertEffect (exact : Bool) (key value : Bytes) :
    List (Bytes × StoredValue) → Nat → Bool → List (Bytes × StoredValue) → Nat → Prop where
  | new {entries changed : List (Bytes × StoredValue)} {total newTotal : Nat} {inserted : Bool}
      (effect : AddEffect key value entries total inserted changed newTotal) :
      InsertEffect exact key value entries total inserted changed newTotal
  | inPlace {front back : List (Bytes × StoredValue)} {total : Nat} (old : Bytes)
      (shorter : value.length ≤ old.length)
      (alike : value.length = old.length ∨ exact = false ∧ back = []) :
      InsertEffect exact key value (front ++ (key, .inline old) :: back) total true
        (front ++ (key, .inline value) :: back) total
  | replaced {front back changed : List (Bytes × StoredValue)} {total newTotal : Nat}
      {inserted : Bool} (old : StoredValue)
      (effect : AddEffect key value (front ++ back)
        (total - (leafEntryBytes (key, old)).length) inserted changed newTotal) :
      InsertEffect exact key value (front ++ (key, old) :: back) total inserted changed newTotal

theorem length_storeValue {page : UInt64} (large : page ≠ 0 ↔ overflowThreshold < value.length) :
    (leafEntryBytes (key, storeValue value page)).length = storedSize key value := by
  rw [length_leafEntryBytes, storeValue_bytes, storedSize]
  by_cases inline : page = 0
  · rw [if_pos inline, if_neg (fun isLarge => large.mpr isLarge inline)]
  · rw [if_neg inline, if_pos (large.mp inline), List.length_nil]

variable [Std.TransCmp compare] [Std.LawfulEqCmp compare]

theorem LeafTree.delete_spec (leafTree : LeafTree compare tree entries total) (fuel : Nat)
    (nonempty : key.length ≠ 0) :
    (getEntry key entries = none ∧
      jdbxBtreeDelete compare (fuel + 1) tree key = some (false, tree)) ∨
    ∃ front stored back deleted, entries = front ++ (key, stored) :: back ∧
      jdbxBtreeDelete compare (fuel + 1) tree key = some (true, deleted) ∧
        LeafTree compare deleted (front ++ back)
          (total - (leafEntryBytes (key, stored)).length) := by
  obtain ⟨node, held, leaf⟩ := leafTree.leaf
  obtain ⟨position, found, search, located⟩ :=
    leaf.findKeyPosition_located leafTree.ascending key
  have ascending := leafTree.ascending
  rw [jdbxBtreeDelete, if_neg nonempty, deleteFrom, if_neg leafTree.nonzero]
  simp only [held, Option.bind_eq_bind, search, Option.bind_some, leaf.level, if_true]
  cases located with
  | missing front back below above => exact Or.inl ⟨getEntry_missing below above, rfl⟩
  | found front stored back =>
    obtain ⟨removed, removes, removedLeaf⟩ := leaf.removeEntryAt_spec
    refine Or.inr ⟨front, stored, back, tree.write tree.rootPage removed, rfl, ?_, ?_⟩
    · simp only [if_true, removes, Option.bind_some]
      rfl
    · exact leafTree.write removedLeaf ascending.remove

theorem LeafTree.add_spec {node : Memory} {page : UInt64}
    (leafTree : LeafTree compare tree (front ++ back) total)
    (leaf : LeafPage node (front ++ back) total)
    (below : ∀ entry ∈ front, compare entry.1 key = .lt)
    (above : ∀ entry ∈ back, compare key entry.1 = .lt)
    (few : (front ++ back).length < btreeMaxKeys)
    (large : page ≠ 0 ↔ overflowThreshold < value.length)
    (fits : total + storedSize key value ≤ pageSize) :
    ∃ inserted changed newTotal, insertEntryAt node front.length key value page = some inserted ∧
      AddEffect key value (front ++ back) total true changed newTotal ∧
        LeafTree compare (tree.write tree.rootPage inserted) changed newTotal := by
  have size : (leafEntryBytes (key, storeValue value page)).length = storedSize key value :=
    length_storeValue large
  obtain ⟨inserted, inserts, newLeaf⟩ :=
    leaf.insertEntryAt_spec key value page (size.symm ▸ fits) few
  refine ⟨inserted, _, _, inserts, .added page ?_ (getEntry_missing below above), ?_⟩
  · exact (eq_or_ne page 0).imp id large.mp
  · exact leafTree.write newLeaf (leafTree.ascending.insert below above _)

theorem LeafTree.insertNewKey_spec {node : Memory}
    (leafTree : LeafTree compare tree (front ++ back) total)
    (held : tree.page tree.rootPage = some node) (leaf : LeafPage node (front ++ back) total)
    (below : ∀ entry ∈ front, compare entry.1 key = .lt)
    (above : ∀ entry ∈ back, compare key entry.1 = .lt)
    (few : (front ++ back).length < btreeMaxKeys) (fits : total + storedSize key value ≤ pageSize) :
    ∃ inserted added changed newTotal,
      insertNewKey tree tree.rootPage node front.length key value = some (some inserted, added) ∧
        AddEffect key value (front ++ back) total inserted changed newTotal ∧
          LeafTree compare added changed newTotal := by
  have room : ¬ pageSize < total + storedSize key value := Nat.not_lt.mpr fits
  rw [storedSize] at room
  rw [insertNewKey]
  by_cases large : overflowThreshold < value.length
  · obtain ⟨page, written, writes, keeps, root⟩ :=
      writeOverflowValue_spec value held leafTree.nonzero.symm
    have writtenTree : LeafTree compare written (front ++ back) total :=
      ⟨root ▸ leafTree.nonzero, ⟨node, root ▸ keeps, leaf⟩, leafTree.ascending⟩
    rw [if_pos large] at room
    simp only [large, decide_true, if_true, writes, Option.bind_eq_bind,
      Option.bind_some, leaf.size, room, if_false, true_and]
    by_cases failed : page = 0
    · exact ⟨false, written, front ++ back, total, by simp [failed], .refused large, writtenTree⟩
    · obtain ⟨inserted, changed, newTotal, inserts, effect, added⟩ :=
        writtenTree.add_spec leaf below above few (iff_of_true failed large) fits
      rw [root] at added
      exact ⟨true, _, changed, newTotal, by simp [failed, inserts], effect, added⟩
  · rw [if_neg large] at room
    obtain ⟨inserted, changed, newTotal, inserts, effect, added⟩ :=
      leafTree.add_spec leaf below above few (iff_of_false (not_not.mpr rfl) large) fits
    refine ⟨true, tree.write tree.rootPage inserted, changed, newTotal, ?_, effect, added⟩
    simp [large, leaf.size, room, inserts]

theorem LeafTree.insertFrom_absent (leafTree : LeafTree compare tree entries total) (fuel : Nat)
    (absent : getEntry key entries = none) (few : entries.length < btreeMaxKeys)
    (fits : total + storedSize key value ≤ pageSize) :
    ∃ inserted added changed newTotal,
      insertFrom compare key value (fuel + 1) tree.rootPage tree = some (inserted, added) ∧
        AddEffect key value entries total inserted changed newTotal ∧
          LeafTree compare added changed newTotal := by
  obtain ⟨node, held, leaf⟩ := leafTree.leaf
  obtain ⟨position, found, search, located⟩ :=
    leaf.findKeyPosition_located leafTree.ascending key
  have notFull : nodeIsFull node = false := by
    simpa [nodeIsFull, leaf.count] using few
  rw [insertFrom]
  simp only [held, notFull, Option.bind_eq_bind, search, Option.bind_some, leaf.level, if_true]
  cases located with
  | missing front back below above =>
    obtain ⟨inserted, added, changed, newTotal, inserts, effect, addedTree⟩ :=
      leafTree.insertNewKey_spec held leaf below above few fits
    refine ⟨inserted, added, changed, newTotal, ?_, effect, addedTree⟩
    simp [inserts]
  | found front stored back =>
    rw [leafTree.ascending.getEntry_found] at absent
    cases absent

theorem LeafTree.insert_spec (leafTree : LeafTree compare tree entries total) (fuel : Nat)
    {exact : Bool} (valid : ¬ (key.length = 0 ∨ value.length = 0 ∨ maxKeySize < key.length))
    (condition : ∀ root ∈ rootPosition compare tree key,
      root.HasRoom key value ∧ root.KeepsEntries exact value) :
    ∃ inserted changedTree changed newTotal,
      jdbxBtreeInsert compare (fuel + 2) tree key value = some (inserted, changedTree) ∧
        InsertEffect exact key value entries total inserted changed newTotal ∧
          LeafTree compare changedTree changed newTotal := by
  obtain ⟨node, held, leaf⟩ := leafTree.leaf
  obtain ⟨position, found, search, located⟩ :=
    leaf.findKeyPosition_located leafTree.ascending key
  simp only [rootPosition, held, search, Option.bind_eq_bind, Option.bind_some, Option.mem_def,
    pure, Option.some.injEq, forall_eq'] at condition
  obtain ⟨⟨notFull, room⟩, keeps⟩ := condition
  have few : entries.length < btreeMaxKeys := by
    simpa [nodeIsFull, leaf.count] using notFull
  rw [jdbxBtreeInsert, if_neg valid]
  cases located with
  | missing front back below above =>
    have fits : total + storedSize key value ≤ pageSize := by
      simpa [RootPosition.takesInPlace, leaf.size] using room
    obtain ⟨inserted, added, changed, newTotal, inserts, effect, addedTree⟩ :=
      leafTree.insertFrom_absent (fuel + 1) (getEntry_missing below above) few fits
    exact ⟨inserted, added, changed, newTotal, inserts, .new effect, addedTree⟩
  | found front stored back =>
    have ascending := leafTree.ascending
    simp only [if_true, leaf.getKeyPtr_at, Option.bind_some, leaf.loadEntry_at,
      RootPosition.takesInPlace, RootPosition.KeepsEntries, Option.any_some, Option.map_some,
      Option.getD_some, leaf.leafSize_loaded, leaf.size, leaf.count] at room keeps
    rw [insertFrom]
    simp only [held, notFull, Option.bind_eq_bind, search, Option.bind_some, leaf.level, if_true,
      leaf.getKeyPtr_at, leaf.loadEntry_at]
    by_cases inPlace : value.length ≤ (LeafPage.loaded (key, stored)).valueSize ∧
        (LeafPage.loaded (key, stored)).overflowPage = 0
    · cases stored with
      | overflow valueSize page => exact absurd inPlace.2 page.property
      | inline old =>
        rw [leaf.valueSize_loaded] at inPlace keeps
        have alike : value.length = old.length ∨ exact = false ∧ back = [] := by
          refine (keeps (decide_eq_true inPlace)).imp (fun same => ?_) (fun last => ?_)
          · exact (Option.some.inj same).symm
          · simpa using last
        obtain ⟨updated, updates, updatedLeaf⟩ :=
          leaf.updateInPlace_spec inPlace.1 (alike.imp id And.right)
        refine ⟨true, tree.write tree.rootPage updated, _, total, ?_,
          .inPlace old inPlace.1 alike, leafTree.write updatedLeaf (ascending.replace _)⟩
        simp [leaf.valueSize_loaded, inPlace, updates]
    · have fits := room (decide_eq_false inPlace)
      rcases leafTree.delete_spec fuel (not_or.mp valid).1 with ⟨absent, _⟩ | deletion
      · rw [ascending.getEntry_found] at absent
        cases absent
      · obtain ⟨before, held', behind, deleted, split, deletes, deletedTree⟩ := deletion
        have sameTable : Ascending compare (before ++ (key, held') :: behind) := split ▸ ascending
        have sameStored : stored = held' := by
          have once := ascending.getEntry_found
          rw [split, sameTable.getEntry_found] at once
          exact (Option.some.inj once).symm
        have absent : getEntry key (before ++ behind) = none := sameTable.getEntry_removed
        have fewer : (before ++ behind).length < btreeMaxKeys := by
          rw [split] at few
          simp only [List.length_append, List.length_cons] at few ⊢
          omega
        obtain ⟨inserted, added, changed, newTotal, inserts, effect, addedTree⟩ :=
          deletedTree.insertFrom_absent fuel absent fewer (sameStored ▸ fits)
        refine ⟨inserted, added, changed, newTotal, ?_, split ▸ .replaced held' effect, addedTree⟩
        simp [inPlace, deletes, inserts]

def visible (entry : Bytes × StoredValue) : Bytes × Bytes :=
  (entry.1, entry.2.bytes)

theorem LeafTree.get_spec (leafTree : LeafTree compare tree entries total) (fuel : Nat)
    (inline : ∀ entry ∈ entries, entry.2.page = 0) (nonempty : key.length ≠ 0) :
    jdbxBtreeGet compare (fuel + 1) tree key =
      some ((getEntry key entries).map StoredValue.bytes) := by
  obtain ⟨node, held, leaf⟩ := leafTree.leaf
  obtain ⟨position, found, search, located⟩ :=
    leaf.findKeyPosition_located leafTree.ascending key
  rw [jdbxBtreeGet, if_neg nonempty, getFrom]
  simp only [held, Option.bind_eq_bind, search, Option.bind_some, leaf.level, if_true]
  cases located with
  | missing front back below above =>
    rw [getEntry_missing below above]
    rfl
  | found front stored back =>
    have isInline : stored.page = 0 := inline (key, stored) (by simp)
    cases stored with
    | overflow valueSize page => exact absurd isInline page.property
    | inline value =>
      rw [leafTree.ascending.getEntry_found]
      simp only [if_true, leaf.getKeyPtr_at, Option.bind_some, leaf.loadEntry_at,
        LeafPage.overflowPage_loaded, isInline, LeafPage.keySize_loaded, leaf.loadValue_at]
      rfl

omit [Std.TransCmp compare] [Std.LawfulEqCmp compare] in
theorem LeafTree.iteratorNext_entry
    (leafTree : LeafTree compare tree (front ++ (key, .inline value) :: back) total) (fuel : Nat) :
    iteratorNext (fuel + 1) tree
        { currentPage := tree.rootPage, currentIndex := front.length, finished := false } =
      some (some (key, value),
        { currentPage := tree.rootPage, currentIndex := front.length + 1, finished := false }) := by
  obtain ⟨node, held, leaf⟩ := leafTree.leaf
  have inside : front.length < numKeys node := by
    rw [leaf.count]
    simp
  have isInline : (LeafPage.loaded (key, .inline value)).overflowPage = 0 := rfl
  rw [iteratorNext, if_neg (by simp), iteratorFrom, if_neg leafTree.nonzero]
  simp only [held, if_pos inside, Option.bind_eq_bind, leaf.getKeyPtr_at, Option.bind_some,
    leaf.loadEntry_at, leaf.loadKey_at, if_pos isInline]
  rw [LeafPage.keySize_loaded, leaf.loadValue_at]
  rfl

omit [Std.TransCmp compare] [Std.LawfulEqCmp compare] in
theorem LeafTree.iteratorNext_end (leafTree : LeafTree compare tree entries total) (fuel : Nat) :
    iteratorNext (fuel + 1) tree
        { currentPage := tree.rootPage, currentIndex := entries.length, finished := false } =
      some (none, { currentPage := 0, currentIndex := 0, finished := true }) := by
  obtain ⟨node, held, leaf⟩ := leafTree.leaf
  have atEnd : ¬ entries.length < numKeys node := by
    rw [leaf.count]
    exact Nat.lt_irrefl _
  rw [iteratorNext, if_neg (by simp), iteratorFrom, if_neg leafTree.nonzero]
  simp only [held, if_neg atEnd, if_pos leaf.right]

omit [Std.TransCmp compare] [Std.LawfulEqCmp compare] in
theorem LeafTree.iterateFrom_spec (fuel : Nat) :
    ∀ {back front : List (Bytes × StoredValue)} {steps : Nat},
      LeafTree compare tree (front ++ back) total → (∀ entry ∈ back, entry.2.page = 0) →
        back.length < steps →
          iterateFrom (fuel + 1) tree steps
              { currentPage := tree.rootPage, currentIndex := front.length, finished := false } =
            some (back.map visible) := by
  intro back
  induction back with
  | nil =>
    intro front steps leafTree _ enough
    obtain ⟨steps, rfl⟩ := Nat.exists_eq_add_one_of_ne_zero (Nat.ne_of_gt enough)
    rw [List.append_nil] at leafTree
    rw [iterateFrom, leafTree.iteratorNext_end fuel]
    rfl
  | cons entry back ih =>
    intro front steps leafTree inline enough
    obtain ⟨steps, rfl⟩ :=
      Nat.exists_eq_add_one_of_ne_zero (Nat.ne_of_gt (Nat.zero_lt_of_lt enough))
    obtain ⟨key, stored⟩ := entry
    cases stored with
    | overflow valueSize page => exact absurd (inline _ List.mem_cons_self) page.property
    | inline value =>
      have split : front ++ (key, StoredValue.inline value) :: back =
          (front ++ [(key, .inline value)]) ++ back := by
        simp
      have rest := ih (split ▸ leafTree)
        (fun entry member => inline entry (List.mem_cons_of_mem _ member))
        (Nat.lt_of_succ_lt_succ enough)
      rw [List.length_append, List.length_singleton] at rest
      rw [iterateFrom, leafTree.iteratorNext_entry fuel]
      simp only [Option.bind_eq_bind, Option.bind_some, rest]
      rfl

omit [Std.TransCmp compare] [Std.LawfulEqCmp compare] in
theorem LeafTree.iterate_spec (leafTree : LeafTree compare tree entries total) (fuel : Nat)
    {steps : Nat} (inline : ∀ entry ∈ entries, entry.2.page = 0)
    (enough : btreeMaxKeys < steps) :
    iterate (fuel + 1) steps tree = some (entries.map visible) := by
  obtain ⟨node, held, leaf⟩ := leafTree.leaf
  have atStart : LeafTree compare tree ([] ++ entries) total := leafTree
  have walk : iterateFrom (fuel + 1) tree steps
      { currentPage := tree.rootPage, currentIndex := 0, finished := false } =
        some (entries.map visible) :=
    LeafTree.iterateFrom_spec fuel atStart inline (leaf.few.trans_lt enough)
  rw [iterate, iteratorCreate, findLeftmostLeaf, if_neg leafTree.nonzero]
  simp only [held, leaf.level, if_true, Option.bind_eq_bind, Option.bind_some,
    decide_eq_false leafTree.nonzero]
  exact walk

end Operations

theorem leafPage_empty (page : Memory) (number : UInt64) :
    LeafPage (setParentPage (setRightSibling (setTotalSize (setNodeLevel (setNumKeys
      (setPageId (setPageType page pageTypeBtreeLeaf) number) 0) 0) nodeHeaderSize) 0) 0) []
        nodeHeaderSize where
  level := by
    simp (disch := decide) only [nodeLevel, setParentPage, setRightSibling, setTotalSize,
      setNodeLevel, readNat_writeNat_of_disjoint, readNat_writeNat_self]
  count := by
    simp (disch := decide) only [numKeys, setParentPage, setRightSibling, setTotalSize,
      setNodeLevel, setNumKeys, readNat_writeNat_of_disjoint, readNat_writeNat_self, List.length_nil]
  size := by
    simp (disch := decide) only [totalSize, setParentPage, setRightSibling, setTotalSize,
      readNat_writeNat_of_disjoint, readNat_writeNat_self]
  right := by
    simp (disch := decide) only [rightSibling, setParentPage, setRightSibling,
      readNat_writeNat_of_disjoint, readNat_writeNat_self]
    rfl
  parent := by
    simp (disch := decide) only [parentPage, setParentPage, readNat_writeNat_self]
    rfl
  holds := rfl
  counted := Nat.le_refl _
  inPage := by decide
  few := by decide

theorem jdbxBtreeCreate_spec (compare : Bytes → Bytes → Ordering) {store : PageStore} {tree : BTree}
    (created : jdbxBtreeCreate store = some tree) : LeafTree compare tree [] nodeHeaderSize := by
  rw [jdbxBtreeCreate] at created
  obtain ⟨⟨rootPage, granted⟩, allocates, created⟩ := Option.bind_eq_some_iff.mp created
  obtain ⟨page, held, created⟩ := Option.bind_eq_some_iff.mp created
  cases created
  have grants : BTree.alloc { rootPage := 0, store := store } pageTypeBtreeLeaf =
      some (rootPage, { rootPage := 0, store := granted }) := by
    rw [BTree.alloc, allocates]
    rfl
  obtain ⟨_, nonzero, _⟩ := BTree.alloc_spec grants
  have rootHeld : BTree.page { rootPage, store := granted } rootPage = some page := held
  exact ⟨nonzero, ⟨_, BTree.page_write_self rootHeld _, leafPage_empty page rootPage⟩,
    List.Pairwise.nil⟩

end Jdbx
