import Jdbx.Library.GuardedRun
import Jdbx.Storage.LeafTree

/-!
# Runs of the B-tree

Insertions and deletions on a new tree, one after another.  Beside the tree a run
keeps what it should hold by the results of its calls.
-/

namespace Jdbx

open Library

inductive BTreeCall where
  | insert (key value : Bytes)
  | delete (key : Bytes)

/-- The tree, and for each key the value of the last insertion that succeeded unless
a deletion has succeeded since. -/
structure BTreeRun where
  tree : BTree
  contents : Bytes → Option Bytes

namespace BTreeRun

def start (tree : BTree) : BTreeRun where
  tree := tree
  contents := fun _ => none

/-- One call, with this much fuel for its loops. -/
def step (compare : Bytes → Bytes → Ordering) (fuel : Nat) (run : BTreeRun) :
    BTreeCall → Option BTreeRun
  | .insert key value => do
      let (inserted, tree) ← jdbxBtreeInsert compare fuel run.tree key value
      let contents :=
        if inserted then Function.update run.contents key (some value) else run.contents
      return { tree, contents }
  | .delete key => do
      let (deleted, tree) ← jdbxBtreeDelete compare fuel run.tree key
      let contents := if deleted then Function.update run.contents key none else run.contents
      return { tree, contents }

/-- An insertion whose arguments are not refused splits nothing, and keeps the
entries apart. -/
def SplitsNothing (compare : Bytes → Bytes → Ordering) (exact : Bool) (run : BTreeRun) :
    BTreeCall → Prop
  | .insert key value =>
      (key.length = 0 ∨ value.length = 0 ∨ maxKeySize < key.length) ∨
        ∀ root ∈ rootPosition compare run.tree key,
          root.HasRoom key value ∧ root.KeepsEntries exact value
  | .delete _ => True

instance (compare : Bytes → Bytes → Ordering) (exact : Bool) (run : BTreeRun) :
    DecidablePred (run.SplitsNothing compare exact)
  | .insert key value =>
      inferInstanceAs (Decidable (_ ∨ ∀ root ∈ rootPosition compare run.tree key,
        root.HasRoom key value ∧ root.KeepsEntries exact value))
  | .delete _ => inferInstanceAs (Decidable True)

end BTreeRun

/-- The nodes of a tree. -/
inductive IsNode (tree : BTree) : UInt64 → Prop where
  | root : IsNode tree tree.rootPage
  | child {page child : UInt64} {node : Memory} (index : Nat) (parent : IsNode tree page)
      (held : tree.page page = some node) (internal : nodeLevel node ≠ 0)
      (bound : index ≤ numKeys node) (points : getChildPage node index = some child) :
      IsNode tree child

/-- The bytes of a node up to the end of its last entry: its header, the left-most
child of an internal node, and the entries, with a child pointer each. -/
def storedEnd (node : Memory) : Option Nat :=
  if nodeLevel node = 0 then getKeyPtr node (numKeys node) else childEntryPtr node (numKeys node)

structure Accounted (node : Memory) : Prop where
  exact : storedEnd node = some (totalSize node)
  inPage : totalSize node ≤ pageSize
  few : numKeys node ≤ btreeMaxKeys

section Accounting

variable {compare : Bytes → Bytes → Ordering} {tree : BTree}
  {entries changed : List (Bytes × StoredValue)} {total newTotal : Nat} {key value : Bytes}
  {inserted : Bool}

theorem LeafPage.accounted {node : Memory} (leaf : LeafPage node entries total)
    (exact : total = nodeHeaderSize + usedSize entries) : Accounted node where
  exact := by
    rw [storedEnd, if_pos leaf.level, leaf.count, leaf.getKeyPtr_take (Nat.le_refl _),
      List.take_length, leaf.size, exact]
  inPage := leaf.size ▸ leaf.inPage
  few := leaf.count ▸ leaf.few

theorem LeafTree.isNode (leafTree : LeafTree compare tree entries total) {page : UInt64}
    (isNode : IsNode tree page) : page = tree.rootPage := by
  obtain ⟨node, held, leaf⟩ := leafTree.leaf
  induction isNode with
  | root => rfl
  | child index parent holds internal bound points ih =>
      subst ih
      rw [held, Option.some.injEq] at holds
      exact absurd (holds ▸ leaf.level) internal

theorem AddEffect.exact (effect : AddEffect key value entries total inserted changed newTotal)
    (exact : total = nodeHeaderSize + usedSize entries) :
    newTotal = nodeHeaderSize + usedSize changed := by
  cases effect with
  | added page inline absent =>
      rw [exact, usedSize_append, usedSize_append, usedSize_cons]
      omega
  | refused large => exact exact

theorem InsertEffect.exact
    (effect : InsertEffect true key value entries total inserted changed newTotal)
    (exact : total = nodeHeaderSize + usedSize entries) :
    newTotal = nodeHeaderSize + usedSize changed := by
  cases effect with
  | new effect => exact effect.exact exact
  | inPlace old shorter alike =>
      have same := alike.resolve_right fun inexact => nomatch inexact.1
      rw [exact, usedSize_append, usedSize_append, usedSize_cons, usedSize_cons,
        length_leafEntryBytes, length_leafEntryBytes]
      simp only [StoredValue.bytes, same]
  | replaced old effect =>
      apply effect.exact
      rw [exact, usedSize_append, usedSize_append, usedSize_cons]
      omega

variable [Std.TransCmp compare] [Std.LawfulEqCmp compare]

def BTreeRun.Exact (compare : Bytes → Bytes → Ordering) (run : BTreeRun) : Prop :=
  ∃ entries, LeafTree compare run.tree entries (nodeHeaderSize + usedSize entries)

theorem BTreeRun.step_exact (fuel : Nat) {run : BTreeRun} {call : BTreeCall}
    (exact : run.Exact compare) (splitsNothing : run.SplitsNothing compare true call) :
    ∃ next, run.step compare (fuel + 2) call = some next ∧ next.Exact compare := by
  obtain ⟨entries, leafTree⟩ := exact
  cases call with
  | insert key value =>
      by_cases refused : key.length = 0 ∨ value.length = 0 ∨ maxKeySize < key.length
      · refine ⟨run, ?_, entries, leafTree⟩
        rw [step, jdbxBtreeInsert, if_pos refused]
        rfl
      · obtain ⟨inserted, tree, changed, newTotal, inserts, effect, changedTree⟩ :=
          leafTree.insert_spec fuel refused (splitsNothing.resolve_left refused)
        rw [step, inserts]
        exact ⟨_, rfl, changed, effect.exact rfl ▸ changedTree⟩
  | delete key =>
      by_cases empty : key.length = 0
      · refine ⟨run, ?_, entries, leafTree⟩
        rw [step, jdbxBtreeDelete, if_pos empty]
        rfl
      · rcases leafTree.delete_spec (fuel + 1) empty with ⟨_, keeps⟩ | deletion
        · rw [step, keeps]
          exact ⟨_, rfl, entries, leafTree⟩
        · obtain ⟨front, stored, back, tree, rfl, deletes, changedTree⟩ := deletion
          rw [step, deletes]
          refine ⟨_, rfl, front ++ back, ?_⟩
          have size : nodeHeaderSize + usedSize (front ++ (key, stored) :: back) -
              (leafEntryBytes (key, stored)).length = nodeHeaderSize + usedSize (front ++ back) := by
            rw [usedSize_append, usedSize_append, usedSize_cons]
            omega
          exact size ▸ changedTree

/-- Without a split and with values of one length in place, no call accesses a byte
outside a page, and the counters of every node are exact. -/
theorem nodes_accounted {store : PageStore} (created : jdbxBtreeCreate store = some tree)
    (fuel : Nat) (calls : List BTreeCall)
    (splitsNothing : EveryStep (BTreeRun.step compare (fuel + 2))
      (BTreeRun.SplitsNothing compare true) (.start tree) calls) :
    ∃ run, runFrom (BTreeRun.step compare (fuel + 2)) (.start tree) calls = some run ∧
      ∀ page node, IsNode run.tree page → run.tree.page page = some node → Accounted node := by
  have start : (BTreeRun.start tree).Exact compare := ⟨[], jdbxBtreeCreate_spec compare created⟩
  obtain ⟨run, reached, entries, leafTree⟩ := EveryStep.total
    (fun _ _ exact holds => BTreeRun.step_exact fuel exact holds) start splitsNothing
  refine ⟨run, reached, fun page node isNode held => ?_⟩
  obtain ⟨root, rootHeld, leaf⟩ := leafTree.leaf
  rw [leafTree.isNode isNode, rootHeld, Option.some.injEq] at held
  exact held ▸ leaf.accounted rfl

end Accounting

/-! ## Runs on a new tree -/

def samplePages : PageStore where
  pages := fun _ => none
  supply := [5, 6, 7, 8].map fun page => (page, fun _ => 0)
  distinct := by decide
  nonzero := by decide
  fresh := fun _ _ => rfl

def sampleTree : BTree :=
  (jdbxBtreeCreate samplePages).get (by decide)

theorem sampleTree_created : jdbxBtreeCreate samplePages = some sampleTree :=
  (Option.some_get _).symm

def sampleTreeRun (calls : List BTreeCall) : Option BTreeRun :=
  runFrom (BTreeRun.step defaultCompare 20) (.start sampleTree) calls

def keptCalls : List BTreeCall :=
  [.insert (ascii "b") (ascii "xy"), .insert (ascii "a") (ascii "q"),
    .insert (ascii "b") (ascii "zw"), .insert (ascii "a") (ascii "qrst"),
    .insert (ascii "c") (ascii "v"), .delete (ascii "c"), .delete (ascii "d")]

theorem nodes_accounted_keptCalls :
    ∃ run, runFrom (BTreeRun.step defaultCompare (0 + 2)) (.start sampleTree)
        (.insert (ascii "d") (List.replicate 3000 1) :: keptCalls) = some run ∧
      ∀ page node, IsNode run.tree page → run.tree.page page = some node → Accounted node :=
  nodes_accounted sampleTree_created 0 _ (by decide +kernel)

def shortenedCalls : List BTreeCall :=
  [.insert (ascii "a") (ascii "xy"), .insert (ascii "a") (ascii "x")]

def splitCalls : List BTreeCall :=
  [.insert (ascii "a") (List.replicate 1500 1), .insert (ascii "b") (List.replicate 1500 2),
    .insert (ascii "c") (List.replicate 1500 3)]

/-- The counters of the root after a shorter value, and those of the left leaf after
a split, are too large. -/
theorem not_accounted_shortened :
    (∃ run node, sampleTreeRun shortenedCalls = some run ∧
      run.tree.page run.tree.rootPage = some node ∧ ¬ Accounted node) ∧
    ∃ run page node, sampleTreeRun splitCalls = some run ∧ IsNode run.tree page ∧
      run.tree.page page = some node ∧ ¬ Accounted node := by
  have shortened : (sampleTreeRun shortenedCalls).any (fun run =>
      (run.tree.page run.tree.rootPage).any fun node => storedEnd node != some (totalSize node)) =
        true := by
    decide +kernel
  have split : (sampleTreeRun splitCalls).any (fun run =>
      (run.tree.page run.tree.rootPage).any fun root => nodeLevel root != 0 &&
        (getChildPage root 0).any fun page =>
          (run.tree.page page).any fun node => storedEnd node != some (totalSize node)) = true := by
    decide +kernel
  have inexact : ∀ {node : Memory}, (storedEnd node != some (totalSize node)) = true →
      ¬ Accounted node := by
    intro node differs accounted
    rw [accounted.exact, bne_self_eq_false] at differs
    cases differs
  constructor
  · obtain ⟨run, reached, held⟩ := (Option.any_eq_true _ _).mp shortened
    obtain ⟨node, held, differs⟩ := (Option.any_eq_true _ _).mp held
    exact ⟨run, node, reached, held, inexact differs⟩
  · obtain ⟨run, reached, held⟩ := (Option.any_eq_true _ _).mp split
    obtain ⟨root, rootHeld, inside⟩ := (Option.any_eq_true _ _).mp held
    obtain ⟨internal, leftMost⟩ := Bool.and_eq_true_iff.mp inside
    obtain ⟨page, points, held⟩ := (Option.any_eq_true _ _).mp leftMost
    obtain ⟨node, held, differs⟩ := (Option.any_eq_true _ _).mp held
    refine ⟨run, page, node, reached, ?_, held, inexact differs⟩
    exact .child 0 .root rootHeld (bne_iff_ne.mp internal) (Nat.zero_le _) points

/-! ## Contents -/

section Contents

variable {compare : Bytes → Bytes → Ordering} {tree : BTree}
  {entries changed : List (Bytes × StoredValue)} {total newTotal : Nat} {key value : Bytes}
  {inserted : Bool} {front back : List (Bytes × StoredValue)}

def valueOf (entries : List (Bytes × StoredValue)) (key : Bytes) : Option Bytes :=
  (getEntry key entries).map StoredValue.bytes

def AllInline (entries : List (Bytes × StoredValue)) : Prop :=
  ∀ entry ∈ entries, entry.2.page = 0

theorem valueOf_insert (absent : getEntry key (front ++ back) = none) :
    valueOf (front ++ (key, .inline value) :: back) =
      Function.update (valueOf (front ++ back)) key (some value) := by
  funext tested
  by_cases same : tested = key
  · subst same
    rw [getEntry_append, Option.or_eq_none_iff] at absent
    rw [Function.update_self, valueOf, getEntry_append, absent.1, Option.none_or]
    simp [getEntry, StoredValue.bytes]
  · rw [Function.update_of_ne same, valueOf, valueOf, getEntry_insert_of_ne same]

theorem valueOf_remove {stored : StoredValue} [Std.ReflCmp compare]
    (ascending : Ascending compare (front ++ (key, stored) :: back)) :
    valueOf (front ++ back) =
      Function.update (valueOf (front ++ (key, stored) :: back)) key none := by
  funext tested
  by_cases same : tested = key
  · subst same
    rw [Function.update_self, valueOf, ascending.getEntry_removed, Option.map_none]
  · rw [Function.update_of_ne same, valueOf, valueOf, getEntry_insert_of_ne same]

theorem AddEffect.contents (effect : AddEffect key value entries total inserted changed newTotal)
    (small : value.length ≤ overflowThreshold) (inline : AllInline entries) :
    inserted = true ∧ AllInline changed ∧
      valueOf changed = Function.update (valueOf entries) key (some value) := by
  cases effect with
  | refused large => exact absurd large (Nat.not_lt.mpr small)
  | added page either absent =>
      obtain rfl := either.resolve_right (Nat.not_lt.mpr small)
      refine ⟨rfl, ?_, valueOf_insert absent⟩
      intro entry member
      rcases List.mem_append.mp member with before | behind
      · exact inline entry (List.mem_append_left _ before)
      · rcases List.mem_cons.mp behind with rfl | later
        · rfl
        · exact inline entry (List.mem_append_right _ later)

theorem InsertEffect.contents {exact : Bool}
    (effect : InsertEffect exact key value entries total inserted changed newTotal)
    [Std.ReflCmp compare] (ascending : Ascending compare entries)
    (small : value.length ≤ overflowThreshold) (inline : AllInline entries) :
    inserted = true ∧ AllInline changed ∧
      valueOf changed = Function.update (valueOf entries) key (some value) := by
  cases effect with
  | new effect => exact effect.contents small inline
  | @inPlace front back _ old shorter alike =>
      have updates : valueOf (front ++ (key, .inline value) :: back) =
          Function.update (valueOf (front ++ back)) key (some value) :=
        valueOf_insert ascending.getEntry_removed
      rw [valueOf_remove ascending, Function.update_idem] at updates
      refine ⟨rfl, fun entry member => ?_, updates⟩
      rcases List.mem_append.mp member with before | behind
      · exact inline entry (List.mem_append_left _ before)
      · rcases List.mem_cons.mp behind with rfl | later
        · rfl
        · exact inline entry (List.mem_append_right _ (List.mem_cons_of_mem _ later))
  | @replaced front back _ _ _ _ old effect =>
      have remaining : AllInline (front ++ back) := by
        intro entry member
        apply inline
        rcases List.mem_append.mp member with before | behind
        · exact List.mem_append_left _ before
        · exact List.mem_append_right _ (List.mem_cons_of_mem _ behind)
      obtain ⟨isInserted, allInline, updates⟩ := effect.contents small remaining
      rw [valueOf_remove ascending, Function.update_idem] at updates
      exact ⟨isInserted, allInline, updates⟩

/-- The root holds what the calls have left. -/
structure BTreeRun.Represents (compare : Bytes → Bytes → Ordering) (run : BTreeRun)
    (entries : List (Bytes × StoredValue)) (total : Nat) : Prop where
  leafTree : LeafTree compare run.tree entries total
  inline : AllInline entries
  contents : run.contents = valueOf entries
  nonempty : run.contents [] = none

def BTreeCall.IsInline : BTreeCall → Prop
  | .insert _ value => value.length ≤ overflowThreshold
  | .delete _ => True

instance : DecidablePred BTreeCall.IsInline
  | .insert _ value => inferInstanceAs (Decidable (value.length ≤ overflowThreshold))
  | .delete _ => inferInstanceAs (Decidable True)

/-- What the functions need to agree: nothing is split, no entry loses its place, and
no value is large. -/
def BTreeRun.Faithful (compare : Bytes → Bytes → Ordering) (run : BTreeRun) (call : BTreeCall) :
    Prop :=
  run.SplitsNothing compare false call ∧ call.IsInline

instance (run : BTreeRun) : DecidablePred (run.Faithful compare) :=
  fun call => inferInstanceAs (Decidable (run.SplitsNothing compare false call ∧ call.IsInline))

variable [Std.TransCmp compare] [Std.LawfulEqCmp compare]

theorem BTreeRun.step_represents (fuel : Nat) {run : BTreeRun} {call : BTreeCall}
    (represents : ∃ entries total, run.Represents compare entries total)
    (faithful : run.Faithful compare call) :
    ∃ next, run.step compare (fuel + 2) call = some next ∧
      ∃ entries total, next.Represents compare entries total := by
  obtain ⟨entries, total, represents⟩ := represents
  obtain ⟨splitsNothing, small⟩ := faithful
  have leafTree := represents.leafTree
  cases call with
  | insert key value =>
      by_cases refused : key.length = 0 ∨ value.length = 0 ∨ maxKeySize < key.length
      · refine ⟨run, ?_, entries, total, represents⟩
        rw [step, jdbxBtreeInsert, if_pos refused]
        rfl
      · obtain ⟨inserted, tree, changed, newTotal, inserts, effect, changedTree⟩ :=
          leafTree.insert_spec fuel refused (splitsNothing.resolve_left refused)
        obtain ⟨rfl, inline, updates⟩ :=
          effect.contents leafTree.ascending small represents.inline
        rw [step, inserts]
        refine ⟨_, rfl, changed, newTotal, changedTree, inline, ?_, ?_⟩
        · rw [updates, ← represents.contents]
          rfl
        · have notEmpty : [] ≠ key := by
            rintro rfl
            exact refused (Or.inl rfl)
          exact (Function.update_of_ne notEmpty _ _).trans represents.nonempty
  | delete key =>
      by_cases empty : key.length = 0
      · refine ⟨run, ?_, entries, total, represents⟩
        rw [step, jdbxBtreeDelete, if_pos empty]
        rfl
      · rcases leafTree.delete_spec (fuel + 1) empty with ⟨_, keeps⟩ | deletion
        · rw [step, keeps]
          exact ⟨_, rfl, entries, total, represents⟩
        · obtain ⟨front, stored, back, tree, rfl, deletes, changedTree⟩ := deletion
          rw [step, deletes]
          refine ⟨_, rfl, front ++ back, _, changedTree, fun entry member => ?_, ?_, ?_⟩
          · apply represents.inline
            rcases List.mem_append.mp member with before | behind
            · exact List.mem_append_left _ before
            · exact List.mem_append_right _ (List.mem_cons_of_mem _ behind)
          · rw [valueOf_remove leafTree.ascending, ← represents.contents]
            rfl
          · have notEmpty : [] ≠ key := by
              rintro rfl
              exact empty rfl
            exact (Function.update_of_ne notEmpty _ _).trans represents.nonempty

theorem run_represents {store : PageStore} (created : jdbxBtreeCreate store = some tree)
    (fuel : Nat) {calls : List BTreeCall}
    (faithful : EveryStep (BTreeRun.step compare (fuel + 2)) (BTreeRun.Faithful compare)
      (.start tree) calls) :
    ∃ run, runFrom (BTreeRun.step compare (fuel + 2)) (.start tree) calls = some run ∧
      ∃ entries total, run.Represents compare entries total := by
  have start : ∃ entries total, (BTreeRun.start tree).Represents compare entries total :=
    ⟨[], nodeHeaderSize, jdbxBtreeCreate_spec compare created, (fun _ member => nomatch member),
      rfl, rfl⟩
  exact EveryStep.total
    (fun _ _ represents holds => BTreeRun.step_represents fuel represents holds) start faithful

theorem BTreeRun.Represents.get {run : BTreeRun} (represents : run.Represents compare entries total)
    (fuel : Nat) (key : Bytes) :
    jdbxBtreeGet compare (fuel + 1) run.tree key = some (run.contents key) := by
  by_cases empty : key.length = 0
  · obtain rfl := List.eq_nil_of_length_eq_zero empty
    rw [represents.nonempty]
    rfl
  · rw [represents.leafTree.get_spec fuel represents.inline empty, represents.contents, valueOf]

/-- A faithful run leaves a finite map: every key is read as the last insertion left
it, and a deletion succeeds on the keys that are found. -/
theorem btree_isMap {store : PageStore} (created : jdbxBtreeCreate store = some tree)
    (fuel : Nat) (calls : List BTreeCall)
    (faithful : EveryStep (BTreeRun.step compare (fuel + 2)) (BTreeRun.Faithful compare)
      (.start tree) calls) :
    ∃ run, runFrom (BTreeRun.step compare (fuel + 2)) (.start tree) calls = some run ∧
      ∀ key, jdbxBtreeGet compare (fuel + 2) run.tree key = some (run.contents key) ∧
        ∃ deleted, jdbxBtreeDelete compare (fuel + 2) run.tree key =
          some ((run.contents key).isSome, deleted) := by
  obtain ⟨run, reached, entries, total, represents⟩ := run_represents created fuel faithful
  refine ⟨run, reached, fun key => ⟨represents.get (fuel + 1) key, ?_⟩⟩
  by_cases empty : key.length = 0
  · obtain rfl := List.eq_nil_of_length_eq_zero empty
    rw [represents.nonempty]
    exact ⟨run.tree, rfl⟩
  · rw [represents.contents, valueOf, Option.isSome_map]
    have leafTree := represents.leafTree
    rcases leafTree.delete_spec (fuel + 1) empty with ⟨absent, keeps⟩ | deletion
    · rw [absent]
      exact ⟨run.tree, keeps⟩
    · obtain ⟨front, stored, back, deleted, rfl, deletes, _⟩ := deletion
      rw [leafTree.ascending.getEntry_found]
      exact ⟨deleted, deletes⟩

/-- An iterator over the tree of a faithful run yields what the tree holds, in
ascending order. -/
theorem iterate_sorted {store : PageStore} (created : jdbxBtreeCreate store = some tree)
    (fuel steps : Nat) (enough : btreeMaxKeys < steps) (calls : List BTreeCall)
    (faithful : EveryStep (BTreeRun.step compare (fuel + 2)) (BTreeRun.Faithful compare)
      (.start tree) calls) :
    ∃ run pairs, runFrom (BTreeRun.step compare (fuel + 2)) (.start tree) calls = some run ∧
      iterate (fuel + 2) steps run.tree = some pairs ∧ Ascending compare pairs ∧
        (∀ key value, (key, value) ∈ pairs ↔ run.contents key = some value) ∧
          ∀ pair ∈ pairs, jdbxBtreeGet compare (fuel + 2) run.tree pair.1 = some (some pair.2) := by
  obtain ⟨run, reached, entries, total, represents⟩ := run_represents created fuel faithful
  have leafTree := represents.leafTree
  have ascending : Ascending compare (entries.map visible) :=
    List.pairwise_map.mpr leafTree.ascending
  have listed : ∀ key value, (key, value) ∈ entries.map visible ↔ run.contents key = some value := by
    intro key value
    rw [represents.contents, valueOf, Option.map_eq_some_iff, List.mem_map]
    constructor
    · rintro ⟨⟨_, stored⟩, member, same⟩
      cases same
      obtain ⟨front, back, rfl⟩ := List.mem_iff_append.mp member
      exact ⟨stored, leafTree.ascending.getEntry_found, rfl⟩
    · rintro ⟨stored, held, rfl⟩
      exact ⟨(key, stored), mem_of_getEntry_eq_some held, rfl⟩
  refine ⟨run, entries.map visible, reached, ?_, ascending, listed, fun pair member => ?_⟩
  · exact leafTree.iterate_spec (fuel + 1) represents.inline enough
  · rw [represents.get (fuel + 1) pair.1, (listed pair.1 pair.2).mp member]

end Contents

theorem btree_isMap_keptCalls :
    ∃ run, runFrom (BTreeRun.step defaultCompare (0 + 2)) (.start sampleTree) keptCalls = some run ∧
      ∀ key, jdbxBtreeGet defaultCompare (0 + 2) run.tree key = some (run.contents key) ∧
        ∃ deleted, jdbxBtreeDelete defaultCompare (0 + 2) run.tree key =
          some ((run.contents key).isSome, deleted) :=
  btree_isMap sampleTree_created 0 keptCalls (by decide +kernel)

theorem iterate_sorted_keptCalls :
    ∃ run pairs,
      runFrom (BTreeRun.step defaultCompare (0 + 2)) (.start sampleTree) keptCalls = some run ∧
        iterate (0 + 2) 101 run.tree = some pairs ∧ Ascending defaultCompare pairs ∧
          (∀ key value, (key, value) ∈ pairs ↔ run.contents key = some value) ∧
            ∀ pair ∈ pairs,
              jdbxBtreeGet defaultCompare (0 + 2) run.tree pair.1 = some (some pair.2) :=
  iterate_sorted sampleTree_created 0 101 (by decide) keptCalls (by decide +kernel)

/-- The split has lost the key between the halves. -/
theorem not_isMap_split :
    ∃ run, sampleTreeRun splitCalls = some run ∧ (run.contents (ascii "b")).isSome ∧
      jdbxBtreeGet defaultCompare 20 run.tree (ascii "b") = some none := by
  have lost : (sampleTreeRun splitCalls).any (fun run => (run.contents (ascii "b")).isSome &&
      jdbxBtreeGet defaultCompare 20 run.tree (ascii "b") == some none) = true := by
    decide +kernel
  obtain ⟨run, reached, differs⟩ := (Option.any_eq_true _ _).mp lost
  obtain ⟨isLive, absent⟩ := Bool.and_eq_true_iff.mp differs
  exact ⟨run, reached, isLive, eq_of_beq absent⟩

/-- An iterator does not yield that key, and stops at a value in overflow pages. -/
theorem not_iterate_split :
    (∃ run pairs, sampleTreeRun splitCalls = some run ∧ (run.contents (ascii "b")).isSome ∧
      iterate 20 101 run.tree = some pairs ∧ ascii "b" ∉ entryKeys pairs) ∧
    ∃ run, sampleTreeRun [.insert (ascii "a") (List.replicate 3000 1)] = some run ∧
      (run.contents (ascii "a")).isSome ∧ iterate 20 101 run.tree = some [] := by
  have lost : (sampleTreeRun splitCalls).any (fun run => (run.contents (ascii "b")).isSome &&
      (iterate 20 101 run.tree).any fun pairs => ascii "b" ∉ entryKeys pairs) = true := by
    decide +kernel
  have large : (sampleTreeRun [.insert (ascii "a") (List.replicate 3000 1)]).any (fun run =>
      (run.contents (ascii "a")).isSome && iterate 20 101 run.tree == some []) = true := by
    decide +kernel
  constructor
  · obtain ⟨run, reached, differs⟩ := (Option.any_eq_true _ _).mp lost
    obtain ⟨isLive, listed⟩ := Bool.and_eq_true_iff.mp differs
    obtain ⟨pairs, yields, absent⟩ := (Option.any_eq_true _ _).mp listed
    exact ⟨run, pairs, reached, isLive, yields, of_decide_eq_true absent⟩
  · obtain ⟨run, reached, differs⟩ := (Option.any_eq_true _ _).mp large
    obtain ⟨isLive, stops⟩ := Bool.and_eq_true_iff.mp differs
    exact ⟨run, reached, isLive, eq_of_beq stops⟩

end Jdbx
