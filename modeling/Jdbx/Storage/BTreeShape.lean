import Jdbx.Storage.InsertTermination

/-!
# The shape of the B-tree

What a B-tree is, by the functions with which the code finds its way: `get_key_ptr` for the keys of
a node, `get_child_page` for its children, and the links to the parent and to the right sibling.
One leaf has that shape.  A node over two leaves has not, as `get_key_ptr` reads the left-most
child as the beginning of the first separator.
-/

namespace Jdbx

open Library

/-- The key with which `find_key_position` compares at an index. -/
def nodeKey (node : Memory) (index : Nat) : Option Bytes := do
  let entryPtr ← getKeyPtr node index
  let entry ← loadEntry node entryPtr
  loadBytes node (entryPtr + entryHeaderSize) entry.keySize

/-- The keys of a node, in their order. -/
structure KeysOf (node : Memory) (keys : List Bytes) : Prop where
  count : keys.length = numKeys node
  read : ∀ index < numKeys node, nodeKey node index = keys[index]?

def nodeChildren (node : Memory) : Option (List UInt64) :=
  (List.range (numKeys node + 1)).mapM (getChildPage node)

/-- A node so many levels below another one, or that node itself. -/
inductive Under (tree : BTree) (top : UInt64) : Nat → UInt64 → Prop where
  | top : Under tree top 0 top
  | child {depth : Nat} {page child : UInt64} {node : Memory} (index : Nat)
      (above : Under tree top depth page) (held : tree.page page = some node)
      (internal : nodeLevel node ≠ 0) (bound : index ≤ numKeys node)
      (points : getChildPage node index = some child) : Under tree top (depth + 1) child

def EveryKeyUnder (tree : BTree) (top : UInt64) (holds : Bytes → Prop) : Prop :=
  ∀ depth page node index key, Under tree top depth page → tree.page page = some node →
    index < numKeys node → nodeKey node index = some key → holds key

/-- The leaves of a subtree, from left to right. -/
def leavesFrom (tree : BTree) : Nat → UInt64 → Option (List UInt64)
  | 0, _ => none
  | fuel + 1, page => do
      let node ← tree.page page
      if nodeLevel node = 0 then return [page]
      else
        let children ← nodeChildren node
        let leaves ← children.mapM (leavesFrom tree fuel)
        return leaves.flatten

/-- The pages that `right_sibling` leads to, with the first. -/
def siblingsFrom (tree : BTree) : Nat → UInt64 → Option (List UInt64)
  | 0, _ => none
  | fuel + 1, page =>
      if page = 0 then some []
      else do
        let node ← tree.page page
        let behind ← siblingsFrom tree fuel (rightSibling node)
        return page :: behind

section Shape

variable (compare : Bytes → Bytes → Ordering) (tree : BTree)

/-- What a node says about itself and the nodes below it. -/
structure NodeShape (page : UInt64) (node : Memory) : Prop where
  ascending : ∃ keys, KeysOf node keys ∧
    keys.Pairwise fun first second => compare first second = .lt
  children : nodeLevel node ≠ 0 →
    ∃ children, nodeChildren node = some children ∧ children.Nodup ∧ 0 ∉ children
  below : nodeLevel node ≠ 0 → ∀ index separator left, index < numKeys node →
    nodeKey node index = some separator → getChildPage node index = some left →
      EveryKeyUnder tree left fun key => compare key separator ≠ .gt
  above : nodeLevel node ≠ 0 → ∀ index separator right, index < numKeys node →
    nodeKey node index = some separator → getChildPage node (index + 1) = some right →
      EveryKeyUnder tree right fun key => compare separator key ≠ .gt
  parent : nodeLevel node ≠ 0 → ∀ index child childNode, index ≤ numKeys node →
    getChildPage node index = some child → tree.page child = some childNode →
      parentPage childNode = page

structure HasShape : Prop where
  held : ∀ depth page, Under tree tree.rootPage depth page → (tree.page page).isSome
  nodes : ∀ depth page node, Under tree tree.rootPage depth page → tree.page page = some node →
    NodeShape compare tree page node
  root : ∀ node, tree.page tree.rootPage = some node → parentPage node = 0
  level : ∃ height, ∀ depth page node, Under tree tree.rootPage depth page →
    tree.page page = some node → nodeLevel node = 0 → depth = height
  siblings : ∃ fuel leaves leftmost, leavesFrom tree fuel tree.rootPage = some leaves ∧
    leaves.Nodup ∧ findLeftmostLeaf tree fuel tree.rootPage = some leftmost ∧
      siblingsFrom tree fuel leftmost = some leaves

end Shape

section OneLeaf

variable {compare : Bytes → Bytes → Ordering} {tree : BTree}
  {entries : List (Bytes × StoredValue)} {total : Nat}

theorem LeafPage.keysOf {node : Memory} (leaf : LeafPage node entries total) :
    KeysOf node (entryKeys entries) where
  count := by
    rw [leaf.count, entryKeys, List.length_map]
  read := by
    intro index inside
    rw [leaf.count] at inside
    have split : entries.take index ++ entries[index] :: entries.drop (index + 1) = entries := by
      rw [← List.drop_eq_getElem_cons inside, List.take_append_drop]
    have atIndex := split.symm ▸ leaf
    rw [nodeKey, leaf.getKeyPtr_take inside.le]
    simp only [Option.bind_eq_bind, Option.bind_some, atIndex.loadEntry_at, atIndex.loadKey_at]
    simp [entryKeys, inside]

theorem LeafTree.under (leafTree : LeafTree compare tree entries total) {depth : Nat}
    {page : UInt64} (under : Under tree tree.rootPage depth page) :
    depth = 0 ∧ page = tree.rootPage := by
  obtain ⟨node, held, leaf⟩ := leafTree.leaf
  induction under with
  | top => exact ⟨rfl, rfl⟩
  | child index above holds internal bound points ih =>
      rw [ih.2, held, Option.some.injEq] at holds
      exact absurd (holds ▸ leaf.level) internal

theorem LeafTree.hasShape (leafTree : LeafTree compare tree entries total) :
    HasShape compare tree := by
  obtain ⟨node, held, leaf⟩ := leafTree.leaf
  have isRoot : ∀ {depth page other}, Under tree tree.rootPage depth page →
      tree.page page = some other → depth = 0 ∧ other = node := by
    intro depth page other under otherHeld
    obtain ⟨atTop, isTop⟩ := leafTree.under under
    rw [isTop, held, Option.some.injEq] at otherHeld
    exact ⟨atTop, otherHeld.symm⟩
  refine ⟨?_, ?_, ?_, ⟨0, ?_⟩, ⟨2, [tree.rootPage], tree.rootPage, ?_⟩⟩
  · intro depth page under
    rw [(leafTree.under under).2, held]
    rfl
  · intro depth page other under otherHeld
    obtain ⟨-, rfl⟩ := isRoot under otherHeld
    have isLeaf : ¬ nodeLevel other ≠ 0 := not_not_intro leaf.level
    exact
      { ascending := ⟨entryKeys entries, leaf.keysOf, List.pairwise_map.mpr leafTree.ascending⟩
        children := fun internal => absurd internal isLeaf
        below := fun internal => absurd internal isLeaf
        above := fun internal => absurd internal isLeaf
        parent := fun internal => absurd internal isLeaf }
  · intro other otherHeld
    rw [(isRoot .top otherHeld).2, leaf.parent]
  · intro depth page other under otherHeld _
    exact (isRoot under otherHeld).1
  · refine ⟨?_, List.nodup_singleton _, ?_, ?_⟩
    · simp only [leavesFrom, held, Option.bind_eq_bind, Option.bind_some, if_pos leaf.level]
      rfl
    · simp only [findLeftmostLeaf, if_neg leafTree.nonzero, held, if_pos leaf.level]
    · simp only [siblingsFrom, if_neg leafTree.nonzero, held, Option.bind_eq_bind,
        Option.bind_some, leaf.right, if_true]
      rfl

variable [Std.TransCmp compare] [Std.LawfulEqCmp compare]

/-- A run whose insertions split nothing goes on to its end and leaves a B-tree. -/
theorem btree_hasShape {store : PageStore} (created : jdbxBtreeCreate store = some tree)
    (fuel : Nat) (calls : List BTreeCall)
    (splitsNothing : EveryStep (BTreeRun.step compare (fuel + 2))
      (BTreeRun.SplitsNothing compare false) (.start tree) calls) :
    ∃ run, runFrom (BTreeRun.step compare (fuel + 2)) (.start tree) calls = some run ∧
      HasShape compare run.tree := by
  have start : (BTreeRun.start tree).OneLeaf compare :=
    ⟨[], nodeHeaderSize, jdbxBtreeCreate_spec compare created⟩
  obtain ⟨run, reached, entries, total, leafTree⟩ :=
    EveryStep.total (fun _ _ => BTreeRun.step_oneLeaf fuel) start splitsNothing
  exact ⟨run, reached, leafTree.hasShape⟩

end OneLeaf

theorem btree_hasShape_keptCalls :
    ∃ run, runFrom (BTreeRun.step defaultCompare (0 + 2)) (.start sampleTree) keptCalls = some run ∧
      HasShape defaultCompare run.tree :=
  btree_hasShape sampleTree_created 0 keptCalls (by decide +kernel)

def outOfOrder (tree : BTree) (root : Memory) : Bool :=
  nodeLevel root ≠ 0 ∧ 0 < numKeys root ∧
    (nodeKey root 0).any fun separator =>
      (getChildPage root 0).any fun left =>
        (tree.page left).any fun leaf =>
          0 < numKeys leaf ∧ (nodeKey leaf 0).any fun key => defaultCompare key separator = .gt

theorem HasShape.not_outOfOrder {tree : BTree} (shape : HasShape defaultCompare tree)
    {root : Memory} (held : tree.page tree.rootPage = some root) : outOfOrder tree root = false := by
  by_contra isOutOfOrder
  rw [Bool.not_eq_false, outOfOrder, decide_eq_true_iff] at isOutOfOrder
  obtain ⟨internal, nonempty, anySeparator⟩ := isOutOfOrder
  obtain ⟨separator, separatorRead, anyLeft⟩ := (Option.any_eq_true _ _).mp anySeparator
  obtain ⟨left, points, anyLeaf⟩ := (Option.any_eq_true _ _).mp anyLeft
  obtain ⟨leaf, leafHeld, anyKey⟩ := (Option.any_eq_true _ _).mp anyLeaf
  obtain ⟨leafNonempty, anyKey⟩ := of_decide_eq_true anyKey
  obtain ⟨key, keyRead, behind⟩ := (Option.any_eq_true _ _).mp anyKey
  have below := (shape.nodes 0 _ root .top held).below internal 0 separator left nonempty
    separatorRead points
  exact below 0 left leaf 0 key .top leafHeld leafNonempty keyRead (of_decide_eq_true behind)

theorem HasShape.not_ownChild {compare : Bytes → Bytes → Ordering} {tree : BTree}
    (shape : HasShape compare tree) {root : Memory} (held : tree.page tree.rootPage = some root)
    (nonzero : tree.rootPage ≠ 0) (internal : nodeLevel root ≠ 0) {index : Nat}
    (bound : index ≤ numKeys root) : getChildPage root index ≠ some tree.rootPage := by
  intro points
  have parent := (shape.nodes 0 _ root .top held).parent internal index _ root bound points held
  exact nonzero (parent.symm.trans (shape.root root held))

/-- After one split the first key of the root is not between its subtrees, and after two the root
may be a child of itself. -/
theorem not_hasShape_split :
    (∃ run, sampleTreeRun splitCalls = some run ∧ ¬ HasShape defaultCompare run.tree) ∧
      ∃ run, sampleTreeRun twiceSplitCalls = some run ∧ ¬ HasShape defaultCompare run.tree := by
  have once : (sampleTreeRun splitCalls).any (fun run =>
      (run.tree.page run.tree.rootPage).any (outOfOrder run.tree)) = true := by
    decide +kernel
  have twice : (sampleTreeRun twiceSplitCalls).any (fun run =>
      (run.tree.page run.tree.rootPage).any fun root => run.tree.rootPage ≠ 0 ∧
        nodeLevel root ≠ 0 ∧ 2 ≤ numKeys root ∧
          getChildPage root 2 = some run.tree.rootPage) = true := by
    decide +kernel
  constructor
  · obtain ⟨run, reached, anyRoot⟩ := (Option.any_eq_true _ _).mp once
    obtain ⟨root, held, isOutOfOrder⟩ := (Option.any_eq_true _ _).mp anyRoot
    refine ⟨run, reached, fun shape => ?_⟩
    rw [shape.not_outOfOrder held] at isOutOfOrder
    cases isOutOfOrder
  · obtain ⟨run, reached, anyRoot⟩ := (Option.any_eq_true _ _).mp twice
    obtain ⟨root, held, isOwnChild⟩ := (Option.any_eq_true _ _).mp anyRoot
    obtain ⟨nonzero, internal, bound, points⟩ := of_decide_eq_true isOwnChild
    exact ⟨run, reached, fun shape => shape.not_ownChild held nonzero internal bound points⟩

end Jdbx
