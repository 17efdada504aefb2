import Jdbx.Library.NodeChains

/-!
# Nodes that point both ways

A list whose nodes point to the next and to the previous one, with a pointer to its first
node and one to its last.  The edits write the pointers one after the other, as code does
that has no other way to change the list.
-/

namespace Jdbx.Library

variable {α : Type} {next : α → Option α} {start : Option α} {node first target : α}
  {nodes before after : List α}

/-! ## Ways -/

namespace Path

theorem start_eq_head (path : Path next start nodes) : start = nodes.head? := by
  cases path <;> rfl

theorem behind (path : Path next start (node :: after)) : Path next (next node) after := by
  cases path with
  | cons tail => exact tail

theorem second_eq (path : Path next start (node :: after)) : next node = after.head? :=
  path.behind.start_eq_head

theorem from_node (path : Path next start (before ++ node :: after)) :
    Path next (next node) after := by
  induction before generalizing start with
  | nil => exact path.behind
  | cons first before ih => exact ih path.behind

theorem next_eq (path : Path next start (before ++ node :: after)) : next node = after.head? :=
  path.from_node.start_eq_head

end Path

/-- The walk along the pointers, up to a node that passes the test.  A test without an answer
ends it, and so does the want of fuel. -/
def walkFrom (next : α → Option α) (test : α → Option Bool) : Nat → Option α → Option (Option α)
  | 0, _ => none
  | _ + 1, none => some none
  | fuel + 1, some node =>
      (test node).bind fun passes =>
        if passes then some (some node) else walkFrom next test fuel (next node)

theorem walkFrom_eq {test : α → Option Bool} {passes : α → Bool}
    (answers : ∀ node ∈ nodes, test node = some (passes node)) {fuel : Nat}
    (path : Path next start nodes) (enough : nodes.length < fuel) :
    walkFrom next test fuel start = some (nodes.find? passes) := by
  induction path generalizing fuel with
  | nil =>
      cases fuel with
      | zero => cases enough
      | succ fuel => rfl
  | @cons node nodes tail ih =>
      cases fuel with
      | zero => cases enough
      | succ fuel =>
          have rest := ih
            (fun inside member => answers inside (List.mem_cons_of_mem node member))
            (Nat.lt_of_succ_lt_succ enough)
          rw [walkFrom, answers node List.mem_cons_self, Option.bind_some, List.find?_cons, rest]
          cases passes node <;> rfl

variable [DecidableEq α]

def pointFrom (next : α → Option α) (source target : Option α) : α → Option α :=
  match source with
  | some node => Function.update next node target
  | none => next

namespace Path

theorem remove (path : Path next start (before ++ node :: after))
    (nodup : (before ++ node :: after).Nodup) :
    Path (pointFrom next before.getLast? (next node))
      (if before = [] then next node else start) (before ++ after) := by
  induction before generalizing start with
  | nil => exact path.from_node
  | cons first before ih =>
      have distinct := List.nodup_cons.mp nodup
      have skips := path.from_node
      cases path with
      | cons tail =>
          rw [if_neg (List.cons_ne_nil first before)]
          apply Path.cons
          cases before with
          | nil =>
              rw [List.getLast?_singleton, pointFrom, Function.update_self]
              apply skips.update
              exact fun inside => distinct.1 (List.mem_cons_of_mem node inside)
          | cons second before =>
              have rest := ih tail distinct.2
              rw [if_neg (List.cons_ne_nil second before)] at rest
              rw [List.getLast?_cons_cons]
              have kept : pointFrom next (second :: before).getLast? (next node) first =
                  next first := by
                cases last : (second :: before).getLast? with
                | none => rfl
                | some last =>
                    apply Function.update_of_ne
                    rintro rfl
                    exact distinct.1 (List.mem_append_left _ (List.mem_of_getLast? last))
              rw [kept]
              exact rest

theorem start_around (path : Path next start (before ++ node :: after))
    (nodup : (before ++ node :: after).Nodup) (target : Option α) :
    (if before = [] then target else start) = if start = some node then target else start := by
  rw [path.start_eq_head]
  cases before with
  | nil => simp
  | cons first before =>
      have different : first ≠ node := by
        rintro rfl
        simp at nodup
      simp [different]

theorem pointFrom_self (nodup : (before ++ node :: after).Nodup) (target : Option α) :
    pointFrom next before.getLast? target node = next node := by
  cases last : before.getLast? with
  | none => rfl
  | some last =>
      apply Function.update_of_ne
      rintro rfl
      exact (List.nodup_append.mp nodup).2.2 _ (List.mem_of_getLast? last) _ List.mem_cons_self rfl

end Path

/-- Walk from a node to the one in front of the target, and point it behind the target. -/
def cutBehind (next : α → Option α) (target : α) : Nat → α → Option (α → Option α)
  | 0, _ => none
  | fuel + 1, node =>
      match next node with
      | none => some next
      | some other =>
          if other = target then some (Function.update next node (next other))
          else cutBehind next target fuel other

theorem cutBehind_eq {fuel : Nat}
    (path : Path next (some first) (first :: before ++ target :: after))
    (nodup : (first :: before ++ target :: after).Nodup) (enough : before.length < fuel) :
    cutBehind next target fuel first =
      some (pointFrom next (first :: before).getLast? (next target)) := by
  induction before generalizing first fuel with
  | nil =>
      cases fuel with
      | zero => cases enough
      | succ fuel =>
          have points : next first = some target := path.second_eq
          simp [cutBehind, points, pointFrom]
  | cons second before ih =>
      cases fuel with
      | zero => cases enough
      | succ fuel =>
          have points : next first = some second := path.second_eq
          have different : second ≠ target := by
            rintro rfl
            have distinct := (List.nodup_cons.mp nodup).2
            simp at distinct
          have rest := ih (points ▸ path.behind)
            (List.nodup_cons.mp nodup).2 (Nat.lt_of_succ_lt_succ enough)
          rw [cutBehind, points]
          simp only [if_neg different, rest, List.getLast?_cons_cons]

/-! ## Lists that point both ways -/

structure Links (α : Type) where
  next : α → Option α
  prev : α → Option α
  head : Option α
  tail : Option α

namespace Links

variable {links : Links α}

/-- The nodes from the head to the tail, and back. -/
structure Lists (links : Links α) (nodes : List α) : Prop where
  forward : Path links.next links.head nodes
  backward : Path links.prev links.tail nodes.reverse
  nodup : nodes.Nodup

/-- Take a node out from between its neighbours. -/
def unlink (links : Links α) (node : α) : Links α :=
  let next := pointFrom links.next (links.prev node) (links.next node)
  let prev := pointFrom links.prev (next node) (links.prev node)
  { next
    prev
    head := if links.head = some node then next node else links.head
    tail := if links.tail = some node then prev node else links.tail }

def pushFront (links : Links α) (node : α) : Links α :=
  { next := Function.update links.next node links.head
    prev := pointFrom (Function.update links.prev node none) links.head (some node)
    head := some node
    tail := if links.tail = none then some node else links.tail }

def popBack (links : Links α) (last : α) : Links α :=
  let tail := links.prev last
  { links with
    next := pointFrom links.next tail none
    head := if tail = none then none else links.head
    tail }

def clear (links : Links α) : Links α :=
  { links with head := none, tail := none }

omit [DecidableEq α] in
theorem Lists.clear (links : Links α) : links.clear.Lists [] :=
  ⟨.nil, .nil, List.nodup_nil⟩

omit [DecidableEq α] in
theorem Lists.reversed (lists : links.Lists (before ++ node :: after)) :
    Path links.prev links.tail (after.reverse ++ node :: before.reverse) := by
  have backward := lists.backward
  rwa [List.reverse_append, List.reverse_cons, List.append_assoc, List.singleton_append] at backward

omit [DecidableEq α] in
theorem Lists.prev_eq (lists : links.Lists (before ++ node :: after)) :
    links.prev node = before.getLast? := by
  rw [lists.reversed.next_eq, List.head?_reverse]

theorem Lists.unlink (lists : links.Lists (before ++ node :: after)) :
    (links.unlink node).Lists (before ++ after) := by
  have prev := lists.prev_eq
  have next := lists.forward.next_eq
  have nodupReversed : (after.reverse ++ node :: before.reverse).Nodup := by
    have reversed := List.nodup_reverse.mpr lists.nodup
    rwa [List.reverse_append, List.reverse_cons, List.append_assoc, List.singleton_append]
      at reversed
  have forward := lists.forward.remove lists.nodup
  have backward := lists.reversed.remove nodupReversed
  rw [lists.forward.start_around lists.nodup, ← prev] at forward
  rw [lists.reversed.start_around nodupReversed, List.getLast?_reverse, ← next,
    ← List.reverse_append] at backward
  have nextKept : pointFrom links.next (links.prev node) (links.next node) node =
      links.next node := by
    rw [prev]
    exact Path.pointFrom_self lists.nodup _
  have prevKept : pointFrom links.prev (links.next node) (links.prev node) node =
      links.prev node := by
    rw [next, ← List.getLast?_reverse]
    exact Path.pointFrom_self nodupReversed _
  refine ⟨?_, ?_, ?_⟩
  · simp only [Links.unlink, nextKept]
    exact forward
  · simp only [Links.unlink, nextKept, prevKept]
    exact backward
  · exact (List.nodup_middle.mp lists.nodup).of_cons

theorem Lists.pushFront (lists : links.Lists nodes) (fresh : node ∉ nodes) :
    (links.pushFront node).Lists (node :: nodes) := by
  refine ⟨?_, ?_, List.nodup_cons.mpr ⟨fresh, lists.nodup⟩⟩
  · apply Path.cons
    simp only [Links.pushFront, Function.update_self]
    exact lists.forward.update fresh _
  · have outside : node ∉ nodes.reverse := fun member => fresh (List.mem_reverse.mp member)
    have back := lists.backward.update outside none
    rw [List.reverse_cons]
    simp only [Links.pushFront]
    cases nodes with
    | nil =>
        have head : links.head = none := lists.forward.start_eq_head
        have tail : links.tail = none := lists.backward.start_eq_head
        rw [head, tail, if_pos rfl]
        apply Path.cons
        rw [pointFrom, Function.update_self]
        exact .nil
    | cons first rest =>
        have head : links.head = some first := lists.forward.start_eq_head
        have tail : links.tail ≠ none := by
          rw [lists.backward.start_eq_head, List.head?_reverse]
          simp
        have different : first ≠ node := fun same => fresh (same ▸ List.mem_cons_self)
        have ends : Function.update links.prev node none first = none := by
          rw [Function.update_of_ne different]
          exact Lists.prev_eq (show links.Lists ([] ++ first :: rest) from lists)
        rw [head, if_neg tail]
        exact back.append (List.nodup_reverse.mpr lists.nodup)
          (List.mem_reverse.mpr List.mem_cons_self) ends (Function.update_self ..) outside

theorem Lists.popBack (lists : links.Lists (before ++ [node])) :
    (links.popBack node).Lists before := by
  have prev := lists.prev_eq
  have last : links.next node = none := lists.forward.next_eq
  have forward := lists.forward.remove lists.nodup
  have around : (if before = [] then none else links.head) =
      if links.prev node = none then none else links.head := by
    rw [prev]
    simp only [List.getLast?_eq_none_iff]
  rw [last, around, ← prev, List.append_nil] at forward
  refine ⟨forward, ?_, (List.nodup_append.mp lists.nodup).1⟩
  exact lists.reversed.behind

end Links

end Jdbx.Library
