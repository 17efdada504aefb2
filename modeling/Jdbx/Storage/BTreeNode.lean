import Jdbx.Library.SortedTable
import Jdbx.Storage.PageManager

/-!
# Nodes of a B-tree

A node is a page: the 56 bytes of `page_header_t`, then `num_keys`, `level`,
`total_size`, `right_sibling` and `parent_page`, and its entries from byte 80 on.
An entry is its `btree_entry_t` of 16 bytes, the key, and in a leaf the value
unless it went to overflow pages.  Pointers into a page are offsets, and an access
outside the page has no result.

Checksums and statistics are left out: no function of `jdbx_btree.c` reads them.
-/

namespace Jdbx

open Library

/-- `sizeof(page_header_t)`. -/
def pageHeaderSize : Nat := 56

/-- `sizeof(btree_node_t)`. -/
def nodeHeaderSize : Nat := 80

/-- `sizeof(btree_entry_t)`. -/
def entryHeaderSize : Nat := 16

def btreeMaxKeys : Nat := 100

def maxKeySize : Nat := 1024

def overflowThreshold : Nat := 2048

def pageTypeBtreeInternal : Nat := 4

def pageTypeBtreeLeaf : Nat := 5

def pageTypeOverflow : Nat := 6

/-! ## Fields -/

section Fields

variable (node : Memory)

def pageType : Nat :=
  readNat node 0 2

def nextPage : UInt64 :=
  .ofNat (readNat node 16 8)

def numKeys : Nat :=
  readNat node 56 2

def nodeLevel : Nat :=
  readNat node 58 2

def totalSize : Nat :=
  readNat node 60 4

def rightSibling : UInt64 :=
  .ofNat (readNat node 64 8)

def parentPage : UInt64 :=
  .ofNat (readNat node 72 8)

def setPageType (type : Nat) : Memory :=
  writeNat node 0 2 type

def setPageId (page : UInt64) : Memory :=
  writeNat node 8 8 page.toNat

def setNextPage (page : UInt64) : Memory :=
  writeNat node 16 8 page.toNat

def setNumKeys (count : Nat) : Memory :=
  writeNat node 56 2 count

def setNodeLevel (level : Nat) : Memory :=
  writeNat node 58 2 level

def setTotalSize (size : Nat) : Memory :=
  writeNat node 60 4 size

def setRightSibling (page : UInt64) : Memory :=
  writeNat node 64 8 page.toNat

def setParentPage (page : UInt64) : Memory :=
  writeNat node 72 8 page.toNat

def nodeIsFull : Bool :=
  btreeMaxKeys ≤ numKeys node

end Fields

section Accesses

variable (node : Memory)

/-- Read `length` bytes of a page. -/
def loadBytes (offset length : Nat) : Option Bytes :=
  if offset + length ≤ pageSize then some (readBytes node offset length) else none

/-- `memcpy` into a page. -/
def memcpy (offset : Nat) (bytes : Bytes) : Option Memory :=
  if offset + bytes.length ≤ pageSize then some (writeBytes node offset bytes) else none

/-- `memmove` inside a page, if there is anything to move. -/
def memmove (target source length : Nat) : Option Memory :=
  if length = 0 then some node
  else (loadBytes node source length).bind (memcpy node target)

def loadPageId (offset : Nat) : Option UInt64 :=
  (loadBytes node offset 8).map fun bytes => .ofNat (ofLittleEndian bytes)

end Accesses

/-! ## Entries -/

structure BTreeEntry where
  keySize : Nat
  valueSize : Nat
  overflowPage : UInt64

namespace BTreeEntry

def bytes (entry : BTreeEntry) : Bytes :=
  littleEndian 4 entry.keySize ++ littleEndian 4 entry.valueSize ++
    littleEndian 8 entry.overflowPage.toNat

def leafSize (entry : BTreeEntry) : Nat :=
  entryHeaderSize + entry.keySize + if entry.overflowPage = 0 then entry.valueSize else 0

def internalSize (entry : BTreeEntry) : Nat :=
  entryHeaderSize + entry.keySize + 8

def size (entry : BTreeEntry) (level : Nat) : Nat :=
  if level = 0 then entry.leafSize else entry.internalSize

end BTreeEntry

def loadEntry (node : Memory) (offset : Nat) : Option BTreeEntry :=
  if offset + entryHeaderSize ≤ pageSize then
    some
      { keySize := readNat node offset 4
        valueSize := readNat node (offset + 4) 4
        overflowPage := .ofNat (readNat node (offset + 8) 8) }
  else none

/-- `get_key_ptr`, which does not skip the left-most child of an internal node. -/
def getKeyPtr (node : Memory) : Nat → Option Nat
  | 0 => some nodeHeaderSize
  | index + 1 => do
      let data ← getKeyPtr node index
      let entry ← loadEntry node data
      return data + entry.size (nodeLevel node)

/-- The sizes of `count` entries from `index` on. -/
def entriesSpan (node : Memory) (size : BTreeEntry → Nat) (index : Nat) : Nat → Option Nat
  | 0 => some 0
  | count + 1 => do
      let span ← entriesSpan node size index count
      let data ← getKeyPtr node (index + count)
      let entry ← loadEntry node data
      return span + size entry

def findKeyPosition (compare : Bytes → Bytes → Ordering) (node : Memory) (key : Bytes) :
    Option (Nat × Bool) :=
  let compareAt (mid : Nat) : Option Ordering := do
    let entryPtr ← getKeyPtr node mid
    let entry ← loadEntry node entryPtr
    let midKey ← loadBytes node (entryPtr + entryHeaderSize) entry.keySize
    return compare key midKey
  binarySearch compareAt (numKeys node) 0 (numKeys node)

/-- The offset of an entry of an internal node, as `get_child_page` finds it. -/
def childEntryPtr (node : Memory) : Nat → Option Nat
  | 0 => some (nodeHeaderSize + 8)
  | index + 1 => do
      let data ← childEntryPtr node index
      let entry ← loadEntry node data
      return data + entry.internalSize

def getChildPage (node : Memory) : Nat → Option UInt64
  | 0 => loadPageId node nodeHeaderSize
  | index + 1 => do
      let data ← childEntryPtr node index
      let entry ← loadEntry node data
      loadPageId node (data + entryHeaderSize + entry.keySize)

/-- `memcmp`, by the sign of its result. -/
def memcmp : Bytes → Bytes → Ordering
  | a :: as, b :: bs => (compare a b).then (memcmp as bs)
  | _, _ => .eq

def defaultCompare (a b : Bytes) : Ordering :=
  let minLen := min a.length b.length
  (memcmp (a.take minLen) (b.take minLen)).then (compare a.length b.length)

theorem defaultCompare_eq_compareLex : ∀ a b : Bytes, defaultCompare a b = a.compareLex compare b
  | [], [] => rfl
  | [], _ :: _ => by simp [defaultCompare, memcmp, List.compareLex, Nat.compare_eq_ite_lt]
  | _ :: _, [] => by simp [defaultCompare, memcmp, List.compareLex, Nat.compare_eq_ite_lt]
  | a :: as, b :: bs => by
      have tails := defaultCompare_eq_compareLex as bs
      rw [List.compareLex_cons_cons, ← tails, defaultCompare, defaultCompare]
      simp [memcmp, Ordering.then_assoc, Nat.compare_eq_ite_lt]

theorem defaultCompare_eq : defaultCompare = List.compareLex compare :=
  funext₂ defaultCompare_eq_compareLex

instance : Std.TransCmp defaultCompare :=
  defaultCompare_eq ▸ inferInstance

instance : Std.LawfulEqCmp defaultCompare :=
  defaultCompare_eq ▸ inferInstance

end Jdbx
