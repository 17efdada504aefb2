import Jdbx.Storage.BTreeRuns
import Jdbx.Storage.OverflowValues

/-!
# Insertions that fail

`jdbx_btree_insert` splits nodes and deletes the old entry of a key before it knows that it can
put the new one in.  An insertion that fails leaves what `jdbx_btree_get` sees as it was where it
fails before that.
-/

namespace Jdbx

open Library

section Failures

variable {compare : Bytes → Bytes → Ordering} {tree after : BTree} {key value : Bytes}
  {number : UInt64} {fuel : Nat}

/-- The overflow pages that follow one another. -/
inductive InChain (tree : BTree) (first : UInt64) : UInt64 → Prop where
  | first : InChain tree first first
  | next {number : UInt64} {page : Memory} (before : InChain tree first number)
      (held : tree.page number = some page) : InChain tree first (nextPage page)

/-- The pages that `jdbx_btree_get` looks at. -/
inductive LooksAt (compare : Bytes → Bytes → Ordering) (tree : BTree) (key : Bytes) :
    UInt64 → Prop where
  | root : LooksAt compare tree key tree.rootPage
  | child {number child : UInt64} {node : Memory} {position : Nat} {found : Bool}
      (above : LooksAt compare tree key number) (held : tree.page number = some node)
      (search : findKeyPosition compare node key = some (position, found))
      (points : getChildPage node (if found then position + 1 else position) = some child) :
      LooksAt compare tree key child
  | overflow {number page : UInt64} {node : Memory} {position entryPtr : Nat} {entry : BTreeEntry}
      (above : LooksAt compare tree key number) (held : tree.page number = some node)
      (search : findKeyPosition compare node key = some (position, true))
      (located : getKeyPtr node position = some entryPtr)
      (loaded : loadEntry node entryPtr = some entry)
      (chained : InChain tree entry.overflowPage page) :
      LooksAt compare tree key page

/-- The trees differ in new pages only. -/
structure SameButNew (tree after : BTree) : Prop where
  root : after.rootPage = tree.rootPage
  pages : ∀ number ∉ entryKeys tree.store.supply, after.page number = tree.page number

theorem SameButNew.refl (tree : BTree) : SameButNew tree tree :=
  ⟨rfl, fun _ _ => rfl⟩

theorem readOverflowPages_congr {first number : UInt64} {total fuel : Nat} {copied : Bytes}
    (agree : ∀ page, InChain tree first page → after.page page = tree.page page)
    (chained : InChain tree first number) :
    readOverflowPages after first total fuel number copied =
      readOverflowPages tree first total fuel number copied := by
  induction fuel generalizing number copied with
  | zero => rfl
  | succ fuel ih =>
    rw [readOverflowPages, readOverflowPages, agree number chained]
    cases held : tree.page number with
    | none => rfl
    | some page =>
      simp only
      by_cases reads : number ≠ 0 ∧ copied.length < total
      · rw [if_pos reads, if_pos reads]
        by_cases isOverflow : pageType page = pageTypeOverflow
        · rw [if_pos isOverflow, if_pos isOverflow]
          exact ih (chained.next held)
        · rw [if_neg isOverflow, if_neg isOverflow]
      · rw [if_neg reads, if_neg reads]

theorem readOverflowValue_congr {first : UInt64}
    (agree : ∀ page, InChain tree first page → after.page page = tree.page page) :
    readOverflowValue after first = readOverflowValue tree first := by
  rw [readOverflowValue, readOverflowValue, agree first .first]
  split_ifs
  · rfl
  · cases tree.page first with
    | none => rfl
    | some page =>
      simp only
      split_ifs
      · exact readOverflowPages_congr agree .first
      · rfl

theorem getFrom_congr (same : SameButNew tree after)
    (away : ∀ page, LooksAt compare tree key page → page ∉ entryKeys tree.store.supply)
    (looks : LooksAt compare tree key number) (fuel : Nat) :
    getFrom compare after key fuel number = getFrom compare tree key fuel number := by
  induction fuel generalizing number with
  | zero => rfl
  | succ fuel ih =>
    rw [getFrom, getFrom, same.pages number (away number looks)]
    cases held : tree.page number with
    | none => rfl
    | some node =>
      simp only
      cases search : findKeyPosition compare node key with
      | none => rfl
      | some result =>
        obtain ⟨position, found⟩ := result
        simp only [Option.bind_eq_bind, Option.bind_some]
        by_cases leaf : nodeLevel node = 0
        · rw [if_pos leaf, if_pos leaf]
          cases found with
          | false => rfl
          | true =>
            rw [if_pos rfl, if_pos rfl]
            cases located : getKeyPtr node position with
            | none => rfl
            | some entryPtr =>
              simp only [Option.bind_some]
              cases loaded : loadEntry node entryPtr with
              | none => rfl
              | some entry =>
                have chain : ∀ page, InChain tree entry.overflowPage page →
                    after.page page = tree.page page := fun page chained =>
                  same.pages page
                    (away page (.overflow looks held search located loaded chained))
                simp only [Option.bind_some, readOverflowValue_congr chain]
        · rw [if_neg leaf, if_neg leaf]
          cases points : getChildPage node (if found then position + 1 else position) with
          | none => rfl
          | some child => exact ih (.child looks held search points)

def overflowPagesFor (value : Bytes) : Nat :=
  if overflowThreshold < value.length then pagesNeeded value else 0

theorem writeOverflowPages_new {new : List UInt64} {needed : Nat} {remaining : Bytes}
    {first prevPage page : UInt64} (supplied : ∀ number ∈ entryKeys tree.store.supply, number ∈ new)
    (prevNew : prevPage = 0 ∨ prevPage ∈ new)
    (writes : writeOverflowPages value needed remaining first prevPage tree = some (page, after)) :
    after.rootPage = tree.rootPage ∧
      (∀ number ∉ new, after.page number = tree.page number) ∧
        (page ≠ 0 → after.store.supply = tree.store.supply.drop needed) := by
  induction needed generalizing remaining first prevPage tree with
  | zero =>
    cases writes
    exact ⟨rfl, fun _ _ => rfl, fun _ => rfl⟩
  | succ needed ih =>
    cases supply : tree.store.supply with
    | nil =>
      rw [writeOverflowPages, BTree.alloc_of_empty supply] at writes
      cases writes
      exact ⟨rfl, fun _ _ => rfl, fun notZero => absurd rfl notZero⟩
    | cons next rest =>
      obtain ⟨allocated, grants, supply', held, others⟩ :=
        BTree.alloc_of_supply supply pageTypeOverflow
      rw [writeOverflowPages_succ value grants held] at writes
      have isNew : next.1 ∈ new := supplied next.1 (by rw [supply]; exact List.mem_cons_self)
      have stillNew : ∀ number ∈ entryKeys rest, number ∈ new := fun number member =>
        supplied number (by rw [supply]; exact List.mem_cons_of_mem _ member)
      obtain ⟨-, -, -, root, -⟩ := BTree.alloc_spec grants
      obtain ⟨sameRoot, samePages, left⟩ := ih
        (by
          rw [BTree.write, PageStore.write, BTree.supply_link, supply']
          exact stillNew)
        (.inr isNew) writes
      refine ⟨sameRoot.trans ((BTree.rootPage_link ..).trans root), fun number old => ?_,
        fun notZero => ?_⟩
      · have notNext : number ≠ next.1 := fun same => old (same ▸ isNew)
        have notPrev : prevPage = 0 ∨ number ≠ prevPage :=
          prevNew.imp_right fun isNew same => old (same ▸ isNew)
        rw [samePages number old, BTree.page_write_of_ne notNext,
          BTree.page_link_of_ne notPrev, others number notNext]
      · rw [left notZero, BTree.write, PageStore.write, BTree.supply_link, supply']
        rfl

theorem deleteFrom_failed
    (deletes : deleteFrom compare tree key fuel number = some (false, after)) : after = tree := by
  induction fuel generalizing number with
  | zero => cases deletes
  | succ fuel ih =>
    rw [deleteFrom] at deletes
    split_ifs at deletes with isZero
    · cases deletes
      rfl
    cases held : tree.page number with
    | none =>
      rw [held] at deletes
      cases deletes
      rfl
    | some node =>
      simp only [held, Option.bind_eq_bind] at deletes
      obtain ⟨⟨position, found⟩, search, deletes⟩ := Option.bind_eq_some_iff.mp deletes
      simp only at deletes
      split_ifs at deletes with leaf isFound
      · obtain ⟨removed, removes, same⟩ := Option.bind_eq_some_iff.mp deletes
        cases same
      · cases deletes
        rfl
      · obtain ⟨child, points, deletes⟩ := Option.bind_eq_some_iff.mp deletes
        exact ih deletes

theorem jdbxBtreeDelete_failed
    (deletes : jdbxBtreeDelete compare fuel tree key = some (false, after)) : after = tree := by
  rw [jdbxBtreeDelete] at deletes
  split_ifs at deletes
  · cases deletes
    rfl
  · exact deleteFrom_failed deletes

theorem splitNode_failed
    {insertIntoParent : BTree → UInt64 → Bytes → UInt64 → UInt64 → Option (Bool × BTree)}
    {parentPage number : UInt64} {node : Memory} (held : tree.page number = some node)
    (empty : tree.store.supply = []) :
    splitNode insertIntoParent tree parentPage number = some (false, tree) := by
  rw [splitNode, held]
  simp only [BTree.alloc_of_empty empty]

/-- The trees differ in new pages only, and in none if the value is small. -/
structure Spared (value : Bytes) (tree after : BTree) : Prop where
  sameButNew : SameButNew tree after
  small : value.length ≤ overflowThreshold → after = tree

theorem Spared.refl (value : Bytes) (tree : BTree) : Spared value tree tree :=
  ⟨.refl tree, fun _ => rfl⟩

theorem insertNewKey_failed {node : Memory} {position : Nat} {result : Option Bool}
    (inserts : insertNewKey tree number node position key value = some (result, after))
    (failed : result ≠ some true) :
    Spared value tree after ∧
      (result = none → pageSize < totalSize node + storedSize key value ∧
        after.store.supply = tree.store.supply.drop (overflowPagesFor value)) := by
  rw [insertNewKey] at inserts
  by_cases large : overflowThreshold < value.length
  · simp only [large, decide_true, if_true, true_and, Option.bind_eq_bind] at inserts
    obtain ⟨⟨page, written⟩, writes, inserts⟩ := Option.bind_eq_some_iff.mp inserts
    obtain ⟨root, pages, supply⟩ :=
      writeOverflowPages_new (fun _ member => member) (.inl rfl) writes
    have spared : Spared value tree written :=
      ⟨⟨root, pages⟩, fun small => absurd large (Nat.not_lt.mpr small)⟩
    simp only at inserts
    split_ifs at inserts with noPage noRoom
    · cases inserts
      exact ⟨spared, fun isNone => absurd isNone (Option.some_ne_none _)⟩
    · cases inserts
      refine ⟨spared, fun _ => ⟨?_, ?_⟩⟩
      · rw [storedSize, if_pos large]
        exact noRoom
      · rw [overflowPagesFor, if_pos large, supply noPage, pagesNeeded]
    · obtain ⟨inserted, writesEntry, same⟩ := Option.bind_eq_some_iff.mp inserts
      cases same
      exact absurd rfl failed
  · simp only [large, decide_false, Bool.false_eq_true, if_false, false_and, Option.bind_eq_bind,
      Option.bind_some] at inserts
    split_ifs at inserts with noRoom
    · cases inserts
      refine ⟨.refl value tree, fun _ => ⟨?_, ?_⟩⟩
      · rw [storedSize, if_neg large]
        exact noRoom
      · rw [overflowPagesFor, if_neg large, List.drop_zero]
    · obtain ⟨inserted, writesEntry, same⟩ := Option.bind_eq_some_iff.mp inserts
      cases same
      exact absurd rfl failed

/-- The pages that the descent of `jdbx_btree_insert` comes to. -/
inductive Descends (compare : Bytes → Bytes → Ordering) (tree : BTree) (key : Bytes) :
    UInt64 → Prop where
  | root : Descends compare tree key tree.rootPage
  | child {number child : UInt64} {node : Memory} {position : Nat} {found : Bool}
      (above : Descends compare tree key number) (held : tree.page number = some node)
      (notFull : nodeIsFull node = false)
      (search : findKeyPosition compare node key = some (position, found))
      (internal : nodeLevel node ≠ 0) (points : getChildPage node position = some child) :
      Descends compare tree key child

/-- `jdbx_btree_delete` finds an entry that it takes out. -/
def Deletes (compare : Bytes → Bytes → Ordering) (tree : BTree) (key : Bytes) : Prop :=
  ∃ fuel deleted, jdbxBtreeDelete compare fuel tree key = some (true, deleted)

def FitsInPlace (node : Memory) (position : Nat) (value : Bytes) : Prop :=
  ∃ entryPtr entry, getKeyPtr node position = some entryPtr ∧
    loadEntry node entryPtr = some entry ∧ value.length ≤ entry.valueSize ∧ entry.overflowPage = 0

/-- On its way the insertion splits no node for which there is a page, and deletes no entry. -/
structure ChangesNothingFirst (compare : Bytes → Bytes → Ordering) (tree : BTree)
    (key value : Bytes) : Prop where
  full : ∀ number node, Descends compare tree key number → tree.page number = some node →
    nodeIsFull node = true → tree.store.supply = []
  found : ∀ number node position, Descends compare tree key number → tree.page number = some node →
    nodeIsFull node = false → nodeLevel node = 0 →
      findKeyPosition compare node key = some (position, true) →
        FitsInPlace node position value ∨ ¬ Deletes compare tree key
  missing : ∀ number node position, Descends compare tree key number →
    tree.page number = some node → nodeIsFull node = false → nodeLevel node = 0 →
      findKeyPosition compare node key = some (position, false) →
        totalSize node + storedSize key value ≤ pageSize ∨
          tree.store.supply.length ≤ overflowPagesFor value

theorem insertFrom_failed (first : ChangesNothingFirst compare tree key value)
    (descends : Descends compare tree key number)
    (fails : insertFrom compare key value fuel number tree = some (false, after)) :
    Spared value tree after := by
  induction fuel generalizing number with
  | zero => cases fails
  | succ fuel ih =>
    rw [insertFrom] at fails
    cases held : tree.page number with
    | none =>
      rw [held] at fails
      cases fails
      exact .refl value tree
    | some node =>
      simp only [held, Option.bind_eq_bind] at fails
      by_cases full : nodeIsFull node = true
      · rw [if_pos full, splitNode_failed held (first.full number node descends held full)]
          at fails
        cases fails
        exact .refl value tree
      rw [if_neg full] at fails
      obtain ⟨⟨position, found⟩, search, fails⟩ := Option.bind_eq_some_iff.mp fails
      have notFull := Bool.eq_false_iff.mpr full
      simp only at fails
      by_cases leaf : nodeLevel node = 0
      · rw [if_pos leaf] at fails
        cases found with
        | true =>
          rw [if_pos rfl] at fails
          obtain ⟨entryPtr, located, fails⟩ := Option.bind_eq_some_iff.mp fails
          obtain ⟨entry, loaded, fails⟩ := Option.bind_eq_some_iff.mp fails
          by_cases inPlace : value.length ≤ entry.valueSize ∧ entry.overflowPage = 0
          · rw [if_pos inPlace] at fails
            obtain ⟨updated, updates, same⟩ := Option.bind_eq_some_iff.mp fails
            cases same
          · rw [if_neg inPlace] at fails
            obtain ⟨⟨deleted, changed⟩, deletes, fails⟩ := Option.bind_eq_some_iff.mp fails
            cases deleted with
            | false =>
              cases fails
              rw [jdbxBtreeDelete_failed deletes]
              exact .refl value tree
            | true =>
              rcases first.found number node position descends held notFull leaf search with
                fits | absent
              · obtain ⟨entryPtr', entry', located', loaded', fits⟩ := fits
                rw [located, Option.some.injEq] at located'
                subst located'
                rw [loaded, Option.some.injEq] at loaded'
                exact absurd (loaded' ▸ fits) inPlace
              · exact absurd ⟨fuel, changed, deletes⟩ absent
        | false =>
          simp only [Bool.false_eq_true, if_false] at fails
          obtain ⟨⟨result, changed⟩, inserts, fails⟩ := Option.bind_eq_some_iff.mp fails
          cases result with
          | some inserted =>
            cases fails
            exact (insertNewKey_failed inserts (by simp)).1
          | none =>
            obtain ⟨spared, noRoom⟩ := insertNewKey_failed inserts (Option.some_ne_none true).symm
            obtain ⟨tooLarge, left⟩ := noRoom rfl
            have few := (first.missing number node position descends held notFull leaf
              search).resolve_left (Nat.not_le.mpr tooLarge)
            have empty : changed.store.supply = [] :=
              left.trans (List.drop_of_length_le few)
            have stillHeld : changed.page number = some node := by
              rw [spared.sameButNew.pages number, held]
              intro isNew
              rw [BTree.page, tree.store.fresh number isNew] at held
              cases held
            simp only [splitNode_failed stillHeld empty] at fails
            cases fails
            exact spared
      · rw [if_neg leaf] at fails
        obtain ⟨child, points, fails⟩ := Option.bind_eq_some_iff.mp fails
        exact ih (.child descends held notFull search leaf points) fails

theorem jdbxBtreeInsert_failed
    (fails : jdbxBtreeInsert compare fuel tree key value = some (false, after))
    (first : ChangesNothingFirst compare tree key value) {other : Bytes}
    (away : overflowThreshold < value.length →
      ∀ page, LooksAt compare tree other page → page ∉ entryKeys tree.store.supply) (steps : Nat) :
    jdbxBtreeGet compare steps after other = jdbxBtreeGet compare steps tree other := by
  rw [jdbxBtreeInsert] at fails
  split_ifs at fails with refused
  · cases fails
    rfl
  · have spared := insertFrom_failed first .root fails
    rcases Nat.lt_or_ge overflowThreshold value.length with large | small
    · rw [jdbxBtreeGet, jdbxBtreeGet, spared.sameButNew.root,
        getFrom_congr spared.sameButNew (away large) .root]
    · rw [spared.small small]

end Failures

section Runs

variable {compare : Bytes → Bytes → Ordering} {fuel : Nat}

def BTreeRun.Fails (compare : Bytes → Bytes → Ordering) (fuel : Nat) (run : BTreeRun)
    (key value : Bytes) : Prop :=
  (jdbxBtreeInsert compare fuel run.tree key value).map Prod.fst = some false

instance (run : BTreeRun) (key value : Bytes) : Decidable (run.Fails compare fuel key value) :=
  inferInstanceAs (Decidable (_ = _))

def BTreeRun.KeepsOnFailure (compare : Bytes → Bytes → Ordering) (fuel : Nat) (run : BTreeRun) :
    BTreeCall → Prop
  | .insert key value => ∀ after, jdbxBtreeInsert compare fuel run.tree key value =
      some (false, after) → ∀ other steps,
        jdbxBtreeGet compare steps after other = jdbxBtreeGet compare steps run.tree other
  | .delete _ => True

/-- If the call is an insertion that fails, it splits nothing and deletes nothing before that, and
no lookup comes to a page that it allocates. -/
def BTreeRun.FailsEarly (compare : Bytes → Bytes → Ordering) (fuel : Nat) (run : BTreeRun) :
    BTreeCall → Prop
  | .insert key value => run.Fails compare fuel key value →
      ChangesNothingFirst compare run.tree key value ∧
        (overflowThreshold < value.length → ∀ other page, LooksAt compare run.tree other page →
          page ∉ entryKeys run.tree.store.supply)
  | .delete _ => True

theorem BTreeRun.FailsEarly.keeps {run : BTreeRun} {call : BTreeCall}
    (early : run.FailsEarly compare fuel call) : run.KeepsOnFailure compare fuel call := by
  cases call with
  | delete key => trivial
  | insert key value =>
    intro after fails other steps
    have returns : run.Fails compare fuel key value := by
      rw [Fails, fails]
      rfl
    obtain ⟨first, away⟩ := early returns
    exact jdbxBtreeInsert_failed fails first (fun large => away large other) steps

/-- In a run whose failing insertions fail before they split or delete anything, each of them
leaves every lookup as it was. -/
theorem failures_keep_lookups (compare : Bytes → Bytes → Ordering) (fuel : Nat) (tree : BTree)
    (calls : List BTreeCall)
    (early : EveryStep (BTreeRun.step compare fuel) (BTreeRun.FailsEarly compare fuel)
      (.start tree) calls) :
    EveryStep (BTreeRun.step compare fuel) (BTreeRun.KeepsOnFailure compare fuel)
      (.start tree) calls :=
  early.mono fun _ _ => BTreeRun.FailsEarly.keeps

end Runs

def lastPageTree : BTree :=
  (jdbxBtreeCreate onePageLeft.store).get (by decide)

/-- There is a page for a sibling, but none for a new root. -/
def siblingTree : BTree :=
  (jdbxBtreeCreate
    { pages := fun _ => none
      supply := [(1, fun _ => 0), (2, fun _ => 0)]
      distinct := by decide
      nonzero := by decide
      fresh := fun _ _ => rfl }).get (by decide)

def LacksInRoot (compare : Bytes → Bytes → Ordering) (tree : BTree) (key : Bytes) : Bool :=
  (tree.page tree.rootPage).all fun node =>
    nodeLevel node = 0 ∧ (findKeyPosition compare node key).all fun result => result.2 = false

theorem changesNothingFirst_of_lacksInRoot {compare : Bytes → Bytes → Ordering} {tree : BTree}
    {key value : Bytes} (lacks : LacksInRoot compare tree key = true)
    (empty : tree.store.supply = []) : ChangesNothingFirst compare tree key value := by
  have isLeaf : ∀ {number node}, number = tree.rootPage → tree.page number = some node →
      nodeLevel node = 0 ∧ ∀ result, findKeyPosition compare node key = some result →
        result.2 = false := by
    rintro number node rfl held
    rw [LacksInRoot, held] at lacks
    simp only [Option.all_some, decide_eq_true_eq] at lacks
    refine ⟨lacks.1, fun result search => ?_⟩
    have notFound := lacks.2
    rw [search] at notFound
    simpa using notFound
  have onlyRoot : ∀ {number}, Descends compare tree key number → number = tree.rootPage := by
    intro number descends
    induction descends with
    | root => rfl
    | child above held notFull search internal points isRoot =>
      exact absurd (isLeaf isRoot held).1 internal
  exact
    { full := fun _ _ _ _ _ => empty
      found := fun number node position descends held _ _ search =>
        nomatch (isLeaf (onlyRoot descends) held).2 _ search
      missing := fun _ _ _ _ _ _ _ _ => .inr (by
        rw [empty]
        exact Nat.zero_le _) }

/-- A large value finds no overflow pages. -/
theorem failures_keep_lookups_large :
    EveryStep (BTreeRun.step defaultCompare 20) (BTreeRun.KeepsOnFailure defaultCompare 20)
      (.start lastPageTree) [.insert (ascii "a") (List.replicate 3000 1)] := by
  refine failures_keep_lookups defaultCompare 20 lastPageTree _ ⟨fun _ => ⟨?_, ?_⟩, ?_⟩
  · exact changesNothingFirst_of_lacksInRoot (by decide +kernel) rfl
  · exact fun _ _ _ _ => List.not_mem_nil
  · exact fun _ _ => trivial

def lossOf (start : Option BTreeRun) (key value kept : Bytes) :
    Option (Bool × Option (Option Bytes) × Option (Option Bytes)) := do
  let run ← start
  let (inserted, after) ← jdbxBtreeInsert defaultCompare 20 run.tree key value
  return (inserted, jdbxBtreeGet defaultCompare 20 run.tree kept,
    jdbxBtreeGet defaultCompare 20 after kept)

theorem exists_of_lossOf {start : Option BTreeRun} {key value kept : Bytes}
    {before behind : Option (Option Bytes)}
    (loses : lossOf start key value kept = some (false, before, behind)) :
    ∃ run after, start = some run ∧
      jdbxBtreeInsert defaultCompare 20 run.tree key value = some (false, after) ∧
        jdbxBtreeGet defaultCompare 20 run.tree kept = before ∧
          jdbxBtreeGet defaultCompare 20 after kept = behind := by
  obtain ⟨run, reached, loses⟩ := Option.bind_eq_some_iff.mp loses
  obtain ⟨⟨inserted, after⟩, inserts, loses⟩ := Option.bind_eq_some_iff.mp loses
  cases loses
  exact ⟨run, after, reached, inserts, rfl, rfl⟩

/-- The old value is deleted before the pages for the new one are asked for, and the upper half of
a leaf is gone when there is no page for a new root. -/
theorem not_failures_keep_lookups :
    (∃ run after, runFrom (BTreeRun.step defaultCompare 20) (.start lastPageTree)
        [.insert (ascii "a") (ascii "xy")] = some run ∧
      jdbxBtreeInsert defaultCompare 20 run.tree (ascii "a") (List.replicate 3000 1) =
        some (false, after) ∧
      jdbxBtreeGet defaultCompare 20 run.tree (ascii "a") = some (some (ascii "xy")) ∧
      jdbxBtreeGet defaultCompare 20 after (ascii "a") = some none) ∧
    ∃ run after, runFrom (BTreeRun.step defaultCompare 20) (.start siblingTree)
        [.insert (ascii "a") (List.replicate 2000 1), .insert (ascii "b") (ascii "xy")] = some run ∧
      jdbxBtreeInsert defaultCompare 20 run.tree (ascii "c") (List.replicate 2000 1) =
        some (false, after) ∧
      jdbxBtreeGet defaultCompare 20 run.tree (ascii "b") = some (some (ascii "xy")) ∧
      jdbxBtreeGet defaultCompare 20 after (ascii "b") = some none := by
  constructor
  · apply exists_of_lossOf
    decide +kernel
  · apply exists_of_lossOf
    decide +kernel

end Jdbx
