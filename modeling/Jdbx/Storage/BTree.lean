import Jdbx.Storage.BTreeNode

/-!
# The B-tree

The functions of `jdbx_btree.c` over the pages of a page manager.  The result of a
call is `none` where it accesses a byte outside a page, or has not returned within
its fuel; otherwise it says whether the C function returns 0.  Memory for buffers
is granted.
-/

namespace Jdbx

open Library

/-! ## The page store -/

/-- The pages, and those that `jdbx_alloc_page` is going to return, with what is in
them.  None of these is in use. -/
structure PageStore where
  pages : UInt64 → Option Memory
  supply : List (UInt64 × Memory)
  distinct : (entryKeys supply).Nodup
  nonzero : 0 ∉ entryKeys supply
  fresh : ∀ page ∈ entryKeys supply, pages page = none

namespace PageStore

/-- What is written through the pointer to a page. -/
def write (store : PageStore) (page : UInt64) (node : Memory) : PageStore where
  pages := fun other =>
    if other = page then (store.pages page).map fun _ => node else store.pages other
  supply := store.supply
  distinct := store.distinct
  nonzero := store.nonzero
  fresh := by
    intro other member
    split_ifs with same
    · rw [← same, store.fresh other member, Option.map_none]
    · exact store.fresh other member

/-- `jdbx_free_page`. -/
def free (store : PageStore) (page : UInt64) : PageStore where
  pages := fun other => if other = page then none else store.pages other
  supply := store.supply
  distinct := store.distinct
  nonzero := store.nonzero
  fresh := by
    intro other member
    split_ifs
    · rfl
    · exact store.fresh other member

/-- `jdbx_alloc_page`, whose `none` is page 0. -/
def alloc (store : PageStore) (type : Nat) : Option (UInt64 × PageStore) :=
  match store with
  | { supply := [], .. } => none
  | { pages, supply := (page, contents) :: supply, distinct, nonzero, fresh } =>
    some (page,
      { pages := fun other => if other = page then some (setPageType contents type) else pages other
        supply := supply
        distinct := (List.nodup_cons.mp distinct).2
        nonzero := fun member => nonzero (List.mem_cons_of_mem _ member)
        fresh := by
          intro other member
          rw [if_neg]
          · exact fresh other (List.mem_cons_of_mem _ member)
          · rintro rfl
            exact (List.nodup_cons.mp distinct).1 member })

end PageStore

/-- The part of `jdbx_btree_t` that is read. -/
structure BTree where
  rootPage : UInt64
  store : PageStore

namespace BTree

def page (tree : BTree) (page : UInt64) : Option Memory :=
  tree.store.pages page

def write (tree : BTree) (page : UInt64) (node : Memory) : BTree :=
  { tree with store := tree.store.write page node }

def free (tree : BTree) (page : UInt64) : BTree :=
  { tree with store := tree.store.free page }

def alloc (tree : BTree) (type : Nat) : Option (UInt64 × BTree) :=
  (tree.store.alloc type).map fun (page, store) => (page, { tree with store })

def link (tree : BTree) (prevPage pageNum : UInt64) : BTree :=
  if prevPage = 0 then tree
  else
    match tree.page prevPage with
    | some prev => tree.write prevPage (setNextPage prev pageNum)
    | none => tree

end BTree

def jdbxBtreeCreate (store : PageStore) : Option BTree := do
  let (rootPage, store) ← store.alloc pageTypeBtreeLeaf
  let page ← store.pages rootPage
  let root := setPageId (setPageType page pageTypeBtreeLeaf) rootPage
  let root := setTotalSize (setNodeLevel (setNumKeys root 0) 0) nodeHeaderSize
  let root := setParentPage (setRightSibling root 0) 0
  return { rootPage, store := store.write rootPage root }

/-- The loop of `write_overflow_value`: `remaining` is to be written to `needed`
pages, and page 0 says that it failed. -/
def writeOverflowPages (value : Bytes) :
    Nat → Bytes → UInt64 → UInt64 → BTree → Option (UInt64 × BTree)
  | 0, _, firstPage, _, tree => some (firstPage, tree)
  | needed + 1, remaining, firstPage, prevPage, tree =>
    match tree.alloc pageTypeOverflow with
    | none => some (0, tree)
    | some (pageNum, tree) =>
      match tree.page pageNum with
      | none => some (0, tree)
      | some page => do
          let tree := tree.link prevPage pageNum
          let chunkSize := min remaining.length (pageSize - pageHeaderSize)
          let page ← memcpy page pageHeaderSize (remaining.take chunkSize)
          let page :=
            if firstPage = 0 then writeNat page pageHeaderSize 4 value.length else page
          writeOverflowPages value needed (remaining.drop chunkSize)
            (if firstPage = 0 then pageNum else firstPage) pageNum (tree.write pageNum page)

def writeOverflowValue (tree : BTree) (value : Bytes) : Option (UInt64 × BTree) :=
  writeOverflowPages value ((value.length + pageSize - 1) / pageSize) value 0 0 tree

/-- The loop of `read_overflow_value`, which reads a byte or more in each turn. -/
def readOverflowPages (tree : BTree) (overflowPage : UInt64) (totalSize : Nat) :
    Nat → UInt64 → Bytes → Option Bytes
  | 0, _, copied => if copied.length = totalSize then some copied else none
  | fuel + 1, currentPage, copied =>
    if currentPage ≠ 0 ∧ copied.length < totalSize then
      match tree.page currentPage with
      | none => none
      | some page =>
        if pageType page = pageTypeOverflow then
          let offset := if currentPage = overflowPage then 4 else 0
          let chunkSize :=
            min (pageSize - pageHeaderSize - offset) (totalSize - copied.length)
          readOverflowPages tree overflowPage totalSize fuel (nextPage page)
            (copied ++ readBytes page (pageHeaderSize + offset) chunkSize)
        else none
    else if copied.length = totalSize then some copied
    else none

def readOverflowValue (tree : BTree) (overflowPage : UInt64) : Option Bytes :=
  if overflowPage = 0 then none
  else
    match tree.page overflowPage with
    | none => none
    | some firstPage =>
      if pageType firstPage = pageTypeOverflow then
        let totalSize := readNat firstPage pageHeaderSize 4
        readOverflowPages tree overflowPage totalSize totalSize overflowPage []
      else none

section Operations

variable (compare : Bytes → Bytes → Ordering)

/-- Where `insert_into_parent` writes the left child of a separator. -/
def leftChildPtr (node : Memory) : Nat → Option Nat
  | 0 => some nodeHeaderSize
  | before + 1 => do
      let prevPtr ← getKeyPtr node before
      let prev ← loadEntry node prevPtr
      return prevPtr + entryHeaderSize + prev.keySize

/-- What `insert_into_parent` writes into a parent that has room. -/
def insertSeparator (parent : Memory) (pos : Nat) (key : Bytes) (leftChild rightChild : UInt64) :
    Option Memory := do
  let entrySize := entryHeaderSize + key.length + 8
  let insertPtr ← getKeyPtr parent pos
  let shiftSize ← entriesSpan parent BTreeEntry.internalSize pos (numKeys parent - pos)
  let node ← memmove parent (insertPtr + entrySize) insertPtr shiftSize
  let node ← memcpy node insertPtr
    { keySize := key.length, valueSize := 0, overflowPage := 0 : BTreeEntry }.bytes
  let node ← memcpy node (insertPtr + entryHeaderSize) key
  let node ← memcpy node (insertPtr + entryHeaderSize + key.length)
    (littleEndian 8 rightChild.toNat)
  let childPtr ← leftChildPtr node pos
  let node ← memcpy node childPtr (littleEndian 8 leftChild.toNat)
  let node := setNumKeys node (numKeys node + 1)
  return setTotalSize node (totalSize node + entrySize)

/-- The part of `split_node` before the parent is changed: the middle key, and what
the full node and its new sibling hold behind it. -/
def moveToSibling (fullNode sibling : Memory) (parentPage siblingPage : UInt64) :
    Option (Bytes × Memory × Memory) := do
  let sibling := setPageId (setPageType sibling (pageType fullNode)) siblingPage
  let sibling := setParentPage (setNodeLevel sibling (nodeLevel fullNode)) parentPage
  let sibling := setRightSibling sibling (rightSibling fullNode)
  let midIndex := numKeys fullNode / 2
  let midPtr ← getKeyPtr fullNode midIndex
  let midEntry ← loadEntry fullNode midPtr
  let midKey ← loadBytes fullNode (midPtr + entryHeaderSize) midEntry.keySize
  let srcPtr ← getKeyPtr fullNode (midIndex + 1)
  let dstPtr := if nodeLevel fullNode = 0 then nodeHeaderSize else nodeHeaderSize + 8
  let copySize ← entriesSpan fullNode (fun entry => entry.size (nodeLevel fullNode))
    (midIndex + 1) (numKeys fullNode - (midIndex + 1))
  let moved ← loadBytes fullNode srcPtr copySize
  let sibling ← memcpy sibling dstPtr moved
  -- `num_keys` and `total_size` wrap.
  let sibling := setNumKeys sibling (numKeys fullNode + 2 ^ 16 - (midIndex + 1))
  let sibling := setTotalSize sibling (nodeHeaderSize + copySize)
  let fullNode := setNumKeys fullNode midIndex
  let dropped := (copySize + entryHeaderSize + midEntry.keySize) % 2 ^ 32
  let fullNode := setTotalSize fullNode (totalSize fullNode + 2 ^ 32 - dropped)
  return (midKey, setRightSibling fullNode siblingPage, sibling)

/-- The root that `split_node` puts over a root that was split. -/
def newRoot (page : Memory) (newRootPage : UInt64) (level : Nat) (midKey : Bytes)
    (fullPage siblingPage : UInt64) : Option Memory := do
  let root := setPageId (setPageType page pageTypeBtreeInternal) newRootPage
  let root := setNumKeys (setNodeLevel root level) 1
  let root := setRightSibling (setParentPage root 0) 0
  let root ← memcpy root nodeHeaderSize (littleEndian 8 fullPage.toNat)
  let rootEntry : BTreeEntry := { keySize := midKey.length, valueSize := 0, overflowPage := 0 }
  let root ← memcpy root (nodeHeaderSize + 8) rootEntry.bytes
  let root ← memcpy root (nodeHeaderSize + 8 + entryHeaderSize) midKey
  let root ← memcpy root (nodeHeaderSize + 8 + entryHeaderSize + midKey.length)
    (littleEndian 8 siblingPage.toNat)
  return setTotalSize root (nodeHeaderSize + 8 + entryHeaderSize + midKey.length + 8)

/-- `split_node`, with the `insert_into_parent` that it calls. -/
def splitNode
    (insertIntoParent : BTree → UInt64 → Bytes → UInt64 → UInt64 → Option (Bool × BTree))
    (tree : BTree) (parentPage fullPage : UInt64) : Option (Bool × BTree) :=
  match tree.page fullPage with
  | none => some (false, tree)
  | some fullNode =>
    let type := if nodeLevel fullNode = 0 then pageTypeBtreeLeaf else pageTypeBtreeInternal
    match tree.alloc type with
    | none => some (false, tree)
    | some (siblingPage, tree) =>
      match tree.page siblingPage with
      | none => some (false, tree.free siblingPage)
      | some sibling => do
          let (midKey, fullNode, sibling) ←
            moveToSibling fullNode sibling parentPage siblingPage
          let tree := (tree.write siblingPage sibling).write fullPage fullNode
          if parentPage = 0 then
            match tree.alloc pageTypeBtreeInternal with
            | none => return (false, tree.free siblingPage)
            | some (newRootPage, tree) =>
              match tree.page newRootPage with
              | none => return (false, (tree.free siblingPage).free newRootPage)
              | some page =>
                let root ← newRoot page newRootPage (nodeLevel fullNode + 1) midKey
                  fullPage siblingPage
                let tree := tree.write newRootPage root
                let tree := tree.write fullPage (setParentPage fullNode newRootPage)
                let tree := tree.write siblingPage (setParentPage sibling newRootPage)
                return (true, { tree with rootPage := newRootPage })
          else
            let (inserted, tree) ← insertIntoParent tree parentPage midKey fullPage siblingPage
            return (inserted, if inserted then tree else tree.free siblingPage)

/-- `insert_into_parent`, which goes into the page it was given even when that page
was split. -/
def insertIntoParent :
    Nat → BTree → UInt64 → Bytes → UInt64 → UInt64 → Option (Bool × BTree)
  | 0, _, _, _, _, _ => none
  | fuel + 1, tree, parentNumber, key, leftChild, rightChild =>
    match tree.page parentNumber with
    | none => some (false, tree)
    | some parent => do
        let splitFirst : Option (Bool × BTree) := do
          let (split, tree) ←
            splitNode (insertIntoParent fuel) tree (parentPage parent) parentNumber
          if split then insertIntoParent fuel tree parentNumber key leftChild rightChild
          else return (false, tree)
        if nodeIsFull parent then splitFirst
        else
          let (pos, _) ← findKeyPosition compare parent key
          if pageSize < totalSize parent + (entryHeaderSize + key.length + 8) then splitFirst
          else
            let parent ← insertSeparator parent pos key leftChild rightChild
            return (true, tree.write parentNumber parent)

/-! ## Operations -/

/-- What `jdbx_btree_delete` does to the leaf that holds the key. -/
def removeEntryAt (node : Memory) (pos : Nat) : Option Memory := do
  let entryPtr ← getKeyPtr node pos
  let entry ← loadEntry node entryPtr
  let shiftSize ← entriesSpan node BTreeEntry.leafSize (pos + 1) (numKeys node - (pos + 1))
  let moved ← memmove node entryPtr (entryPtr + entry.leafSize) shiftSize
  -- `num_keys` and `total_size` wrap.
  let moved := setNumKeys moved (numKeys moved + 2 ^ 16 - 1)
  return setTotalSize moved (totalSize moved + 2 ^ 32 - entry.leafSize % 2 ^ 32)

/-- The page to which `jdbx_btree_delete` goes from an internal node. -/
def deleteChild (node : Memory) (pos : Nat) : Option UInt64 :=
  if pos < numKeys node then do
    let entryPtr ← getKeyPtr node pos
    let entry ← loadEntry node entryPtr
    loadPageId node (entryPtr + entryHeaderSize + entry.keySize)
  else return rightSibling node

def deleteFrom (tree : BTree) (key : Bytes) : Nat → UInt64 → Option (Bool × BTree)
  | 0, _ => none
  | fuel + 1, currentPage =>
    if currentPage = 0 then some (false, tree)
    else
      match tree.page currentPage with
      | none => some (false, tree)
      | some node => do
          let (pos, found) ← findKeyPosition compare node key
          if nodeLevel node = 0 then
            if found then
              let removed ← removeEntryAt node pos
              return (true, tree.write currentPage removed)
            else return (false, tree)
          else
            let child ← deleteChild node pos
            deleteFrom tree key fuel child

def jdbxBtreeDelete (fuel : Nat) (tree : BTree) (key : Bytes) : Option (Bool × BTree) :=
  if key.length = 0 then some (false, tree)
  else deleteFrom compare tree key fuel tree.rootPage

/-- What `jdbx_btree_insert` writes into a leaf that has room. -/
def insertEntryAt (node : Memory) (pos : Nat) (key value : Bytes) (overflowPage : UInt64) :
    Option Memory := do
  let storedValue := if overflowPage = 0 then value else []
  let entrySize := entryHeaderSize + key.length + storedValue.length
  let insertPtr ← getKeyPtr node pos
  let shiftSize ← entriesSpan node BTreeEntry.leafSize pos (numKeys node - pos)
  let node ← memmove node (insertPtr + entrySize) insertPtr shiftSize
  let newEntry : BTreeEntry := { keySize := key.length, valueSize := value.length, overflowPage }
  let node ← memcpy node insertPtr newEntry.bytes
  let node ← memcpy node (insertPtr + entryHeaderSize) key
  let node ← memcpy node (insertPtr + entryHeaderSize + key.length) storedValue
  let node := setNumKeys node (numKeys node + 1)
  return setTotalSize node (totalSize node + entrySize)

/-- What `jdbx_btree_insert` writes over a value that is at least as long. -/
def updateInPlace (node : Memory) (entryPtr : Nat) (entry : BTreeEntry) (value : Bytes) :
    Option Memory :=
  memcpy (writeNat node (entryPtr + 4) 4 value.length)
    (entryPtr + entryHeaderSize + entry.keySize) value

/-- The part of `jdbx_btree_insert` that puts a new key into a leaf, or `none` in
place of the result where the leaf must be split. -/
def insertNewKey (tree : BTree) (currentPage : UInt64) (node : Memory) (pos : Nat)
    (key value : Bytes) : Option (Option Bool × BTree) := do
  let large : Bool := overflowThreshold < value.length
  let (overflowPage, tree) ← if large then writeOverflowValue tree value else some (0, tree)
  if large ∧ overflowPage = 0 then return (some false, tree)
  else
    let storedLength := if large then 0 else value.length
    if pageSize < totalSize node + (entryHeaderSize + key.length + storedLength) then
      return (none, tree)
    else
      let inserted ← insertEntryAt node pos key value overflowPage
      return (some true, tree.write currentPage inserted)

def insertFrom (key value : Bytes) : Nat → UInt64 → BTree → Option (Bool × BTree)
  | 0, _, _ => none
  | fuel + 1, currentPage, tree =>
    match tree.page currentPage with
    | none => some (false, tree)
    | some node => do
        let splitFirst (tree : BTree) : Option (Bool × BTree) := do
          let (split, tree) ←
            splitNode (insertIntoParent compare fuel) tree (parentPage node) currentPage
          if split then insertFrom key value fuel tree.rootPage tree else return (false, tree)
        if nodeIsFull node then splitFirst tree
        else
          let (pos, found) ← findKeyPosition compare node key
          if nodeLevel node = 0 then
            if found then
              let entryPtr ← getKeyPtr node pos
              let entry ← loadEntry node entryPtr
              if value.length ≤ entry.valueSize ∧ entry.overflowPage = 0 then
                let updated ← updateInPlace node entryPtr entry value
                return (true, tree.write currentPage updated)
              else
                let (deleted, tree) ← jdbxBtreeDelete compare fuel tree key
                if deleted then insertFrom key value fuel tree.rootPage tree
                else return (false, tree)
            else
              let (result, tree) ← insertNewKey tree currentPage node pos key value
              match result with
              | none => splitFirst tree
              | some inserted => return (inserted, tree)
          else
            let child ← getChildPage node pos
            insertFrom key value fuel child tree

def jdbxBtreeInsert (fuel : Nat) (tree : BTree) (key value : Bytes) : Option (Bool × BTree) :=
  if key.length = 0 ∨ value.length = 0 ∨ maxKeySize < key.length then some (false, tree)
  else insertFrom compare key value fuel tree.rootPage tree

def getFrom (tree : BTree) (key : Bytes) : Nat → UInt64 → Option (Option Bytes)
  | 0, _ => none
  | fuel + 1, currentPage =>
    match tree.page currentPage with
    | none => some none
    | some node => do
        let (pos, found) ← findKeyPosition compare node key
        if nodeLevel node = 0 then
          if found then
            let entryPtr ← getKeyPtr node pos
            let entry ← loadEntry node entryPtr
            if entry.overflowPage = 0 then
              let value ← loadBytes node (entryPtr + entryHeaderSize + entry.keySize)
                entry.valueSize
              return some value
            else return readOverflowValue tree entry.overflowPage
          else return none
        else
          let child ← getChildPage node (if found then pos + 1 else pos)
          getFrom tree key fuel child

/-- `jdbx_btree_get`: the value, if it returns 0. -/
def jdbxBtreeGet (fuel : Nat) (tree : BTree) (key : Bytes) : Option (Option Bytes) :=
  if key.length = 0 then some none else getFrom compare tree key fuel tree.rootPage

end Operations

structure BTreeIterator where
  currentPage : UInt64
  currentIndex : Nat
  finished : Bool

def findLeftmostLeaf (tree : BTree) : Nat → UInt64 → Option UInt64
  | 0, _ => none
  | fuel + 1, currentPage =>
    if currentPage = 0 then some 0
    else
      match tree.page currentPage with
      | none => some 0
      | some node =>
        if nodeLevel node = 0 then some currentPage
        else (getChildPage node 0).bind (findLeftmostLeaf tree fuel)

def iteratorCreate (fuel : Nat) (tree : BTree) : Option BTreeIterator := do
  let leaf ← findLeftmostLeaf tree fuel tree.rootPage
  return { currentPage := leaf, currentIndex := 0, finished := leaf = 0 }

/-- The loop of `jdbx_btree_iterator_next`. -/
def iteratorFrom (tree : BTree) :
    Nat → BTreeIterator → Option (Option (Bytes × Bytes) × BTreeIterator)
  | 0, _ => none
  | fuel + 1, iter =>
    if iter.currentPage = 0 then some (none, { iter with finished := true })
    else
      match tree.page iter.currentPage with
      | none => some (none, { iter with finished := true })
      | some node =>
        if iter.currentIndex < numKeys node then do
          let entryPtr ← getKeyPtr node iter.currentIndex
          let entry ← loadEntry node entryPtr
          let key ← loadBytes node (entryPtr + entryHeaderSize) entry.keySize
          if entry.overflowPage = 0 then
            let value ← loadBytes node (entryPtr + entryHeaderSize + entry.keySize)
              entry.valueSize
            return (some (key, value), { iter with currentIndex := iter.currentIndex + 1 })
          else return (none, iter)
        else if rightSibling node = 0 then
          some (none, { currentPage := 0, currentIndex := 0, finished := true })
        else
          iteratorFrom tree fuel
            { iter with currentPage := rightSibling node, currentIndex := 0 }

def iteratorNext (fuel : Nat) (tree : BTree) (iter : BTreeIterator) :
    Option (Option (Bytes × Bytes) × BTreeIterator) :=
  if iter.finished then some (none, iter) else iteratorFrom tree fuel iter

/-- Advance an iterator until it reports the end, at most `steps` times. -/
def iterateFrom (fuel : Nat) (tree : BTree) :
    Nat → BTreeIterator → Option (List (Bytes × Bytes))
  | 0, _ => none
  | steps + 1, iter => do
      let (result, iter) ← iteratorNext fuel tree iter
      match result with
      | none => return []
      | some entry =>
        let entries ← iterateFrom fuel tree steps iter
        return entry :: entries

def iterate (fuel steps : Nat) (tree : BTree) : Option (List (Bytes × Bytes)) := do
  let iter ← iteratorCreate fuel tree
  iterateFrom fuel tree steps iter

end Jdbx
