import Jdbx.Storage.BTreeRuns

/-!
# Insertions that return

In a tree of one leaf `jdbx_btree_insert` returns after two turns of its loop.  The loop goes down
by what `get_child_page` reads, and where `insert_into_parent` has written a separator over another
it may read the page of the node itself.
-/

namespace Jdbx

open Library

section Runs

variable {compare : Bytes → Bytes → Ordering} {tree : BTree}

/-- If the call is an insertion, it returns after two turns of its loop at most, and splits
nothing. -/
def BTreeRun.Returns (compare : Bytes → Bytes → Ordering) (run : BTreeRun) : BTreeCall → Prop
  | .insert key value => ∀ extra, (jdbxBtreeInsert compare (extra + 2) run.tree key value).isSome
  | .delete _ => True

def BTreeRun.OneLeaf (compare : Bytes → Bytes → Ordering) (run : BTreeRun) : Prop :=
  ∃ entries total, LeafTree compare run.tree entries total

variable [Std.TransCmp compare] [Std.LawfulEqCmp compare]

theorem BTreeRun.OneLeaf.insert {run : BTreeRun} (oneLeaf : run.OneLeaf compare) {key value : Bytes}
    (splitsNothing : run.SplitsNothing compare false (.insert key value)) (extra : Nat) :
    ∃ inserted after, jdbxBtreeInsert compare (extra + 2) run.tree key value =
      some (inserted, after) ∧ ∃ entries total, LeafTree compare after entries total := by
  obtain ⟨entries, total, leafTree⟩ := oneLeaf
  by_cases refused : key.length = 0 ∨ value.length = 0 ∨ maxKeySize < key.length
  · exact ⟨false, run.tree, if_pos refused, entries, total, leafTree⟩
  · obtain ⟨inserted, after, changed, newTotal, inserts, -, afterTree⟩ :=
      leafTree.insert_spec extra refused (splitsNothing.resolve_left refused)
    exact ⟨inserted, after, inserts, changed, newTotal, afterTree⟩

theorem BTreeRun.step_oneLeaf (fuel : Nat) {run : BTreeRun} {call : BTreeCall}
    (oneLeaf : run.OneLeaf compare) (splitsNothing : run.SplitsNothing compare false call) :
    ∃ next, run.step compare (fuel + 2) call = some next ∧ next.OneLeaf compare := by
  cases call with
  | insert key value =>
      obtain ⟨inserted, after, inserts, afterLeaf⟩ := oneLeaf.insert splitsNothing fuel
      rw [step, inserts]
      exact ⟨_, rfl, afterLeaf⟩
  | delete key =>
      obtain ⟨entries, total, leafTree⟩ := oneLeaf
      by_cases empty : key.length = 0
      · rw [step, jdbxBtreeDelete, if_pos empty]
        exact ⟨_, rfl, entries, total, leafTree⟩
      · rcases leafTree.delete_spec (fuel + 1) empty with ⟨-, keeps⟩ | deletion
        · rw [step, keeps]
          exact ⟨_, rfl, entries, total, leafTree⟩
        · obtain ⟨front, stored, back, deleted, -, deletes, afterTree⟩ := deletion
          rw [step, deletes]
          exact ⟨_, rfl, front ++ back, _, afterTree⟩

/-- A run whose insertions split nothing goes on to its end, and each of them returns after two
turns of its loop. -/
theorem insertions_return {store : PageStore} (created : jdbxBtreeCreate store = some tree)
    (fuel : Nat) (calls : List BTreeCall)
    (splitsNothing : EveryStep (BTreeRun.step compare (fuel + 2))
      (BTreeRun.SplitsNothing compare false) (.start tree) calls) :
    EveryStep (BTreeRun.step compare (fuel + 2)) (BTreeRun.Returns compare) (.start tree) calls ∧
      (runFrom (BTreeRun.step compare (fuel + 2)) (.start tree) calls).isSome := by
  have start : (BTreeRun.start tree).OneLeaf compare :=
    ⟨[], nodeHeaderSize, jdbxBtreeCreate_spec compare created⟩
  constructor
  · refine EveryStep.of_keeps (fun run call next oneLeaf holds taken => ?_)
      (fun run call oneLeaf holds => ?_) start splitsNothing
    · obtain ⟨after, reached, afterLeaf⟩ := BTreeRun.step_oneLeaf fuel oneLeaf holds
      rw [Option.mem_def, reached, Option.some.injEq] at taken
      exact taken ▸ afterLeaf
    · cases call with
      | delete key => trivial
      | insert key value =>
          intro extra
          obtain ⟨inserted, after, inserts, -⟩ := oneLeaf.insert holds extra
          rw [inserts]
          rfl
  · obtain ⟨last, reached, -⟩ :=
      EveryStep.total (fun _ _ => BTreeRun.step_oneLeaf fuel) start splitsNothing
    rw [reached]
    rfl

omit [Std.TransCmp compare] [Std.LawfulEqCmp compare] in
theorem insertFrom_selfChild {number : UInt64} {node : Memory} {key value : Bytes}
    {position : Nat} {found : Bool} (held : tree.page number = some node)
    (notFull : nodeIsFull node = false)
    (search : findKeyPosition compare node key = some (position, found))
    (internal : nodeLevel node ≠ 0) (points : getChildPage node position = some number)
    (fuel : Nat) : insertFrom compare key value fuel number tree = none := by
  induction fuel with
  | zero => rfl
  | succ fuel ih =>
      rw [insertFrom, held]
      simp only [notFull, Bool.false_eq_true, if_false, Option.bind_eq_bind, search,
        Option.bind_some, if_neg internal, points, ih]

end Runs

theorem insertions_return_keptCalls :
    EveryStep (BTreeRun.step defaultCompare (0 + 2)) (BTreeRun.Returns defaultCompare)
        (.start sampleTree) keptCalls ∧
      (runFrom (BTreeRun.step defaultCompare (0 + 2)) (.start sampleTree) keptCalls).isSome :=
  insertions_return sampleTree_created 0 keptCalls (by decide +kernel)

def halfLeaf : Bytes :=
  List.replicate 1500 1

/-- Behind the fourteen bytes of the first separator this one is read as the number of the root. -/
def secondSeparator : Bytes :=
  100 :: List.replicate 16 0 ++ littleEndian 8 7

def twiceSplitCalls : List BTreeCall :=
  [.insert (ascii "a") halfLeaf, .insert (List.replicate 14 98) halfLeaf,
    .insert (ascii "c") halfLeaf, .insert secondSeparator halfLeaf, .insert (ascii "ca") halfLeaf]

def selfChild (tree : BTree) (key : Bytes) (position : Nat) : Bool :=
  (tree.page tree.rootPage).any fun node =>
    nodeIsFull node = false ∧ findKeyPosition defaultCompare node key = some (position, false) ∧
      nodeLevel node ≠ 0 ∧ getChildPage node position = some tree.rootPage

/-- For a key behind the second separator the loop goes from the root to the root. -/
theorem not_insertions_return_twiceSplit :
    ∃ run node, sampleTreeRun twiceSplitCalls = some run ∧
      run.tree.page run.tree.rootPage = some node ∧
      findKeyPosition defaultCompare node (ascii "e") = some (2, false) ∧
      getChildPage node 2 = some run.tree.rootPage ∧
      ∀ fuel, jdbxBtreeInsert defaultCompare fuel run.tree (ascii "e") (ascii "v") = none := by
  have loops : (sampleTreeRun twiceSplitCalls).any
      (fun run => selfChild run.tree (ascii "e") 2) = true := by
    decide +kernel
  obtain ⟨run, reached, isSelfChild⟩ := (Option.any_eq_true _ _).mp loops
  obtain ⟨node, held, isOwnChild⟩ := (Option.any_eq_true _ _).mp isSelfChild
  obtain ⟨notFull, search, internal, points⟩ := of_decide_eq_true isOwnChild
  refine ⟨run, node, reached, held, search, points, fun fuel => ?_⟩
  rw [jdbxBtreeInsert, if_neg (by decide)]
  exact insertFrom_selfChild held notFull search internal points fuel

end Jdbx
