import Mathlib.Data.List.Basic

/-!
# A table of chains with an order

The nodes of a hash table hang in chains, one for each bucket, and at the same
time in one list that keeps their order of use.  A table is `Linked` if both
hold the same nodes, each once; the operations below keep that.
-/

namespace Jdbx.Library

/-- Chains by bucket, and the list over all nodes, most recently used first. -/
structure LinkedTable (α : Type) where
  buckets : List (List α)
  order : List α

namespace LinkedTable

variable {α : Type} {table : LinkedTable α}

def chain (table : LinkedTable α) (index : Nat) : List α :=
  table.buckets.getD index []

def setChain (table : LinkedTable α) (index : Nat) (nodes : List α) : LinkedTable α :=
  { table with buckets := table.buckets.set index nodes }

def link (table : LinkedTable α) (index : Nat) (node : α) : LinkedTable α :=
  { table.setChain index (node :: table.chain index) with order := node :: table.order }

/-- No chain and no order holds a node that the other lacks, or one twice. -/
structure Linked (table : LinkedTable α) : Prop where
  orderNodup : table.order.Nodup
  chainNodup : ∀ index, (table.chain index).Nodup
  oneChain : ∀ {first second node}, node ∈ table.chain first → node ∈ table.chain second →
    first = second
  mem_order : ∀ node, node ∈ table.order ↔ ∃ index, node ∈ table.chain index

theorem index_lt {index : Nat} {node : α} (member : node ∈ table.chain index) :
    index < table.buckets.length := by
  by_contra outside
  rw [chain, List.getD, List.getElem?_eq_none (Nat.le_of_not_lt outside)] at member
  cases member

theorem setChain_chain (table : LinkedTable α) (index other : Nat) (nodes : List α) :
    (table.setChain index nodes).chain other =
      if index = other ∧ index < table.buckets.length then nodes else table.chain other := by
  simp only [chain, setChain, List.getD_eq_getElem?_getD, List.getElem?_set]
  by_cases same : index = other
  · subst same
    by_cases inside : index < table.buckets.length
    · simp [inside]
    · simp [inside]
  · simp [same]

theorem mem_setChain {index other : Nat} {nodes : List α} {node : α}
    (inside : index < table.buckets.length) :
    node ∈ (table.setChain index nodes).chain other ↔
      (index = other ∧ node ∈ nodes) ∨ (index ≠ other ∧ node ∈ table.chain other) := by
  rw [setChain_chain]
  by_cases same : index = other
  · subst same
    simp [inside]
  · simp [same]

theorem setChain_self {index : Nat} (inside : index < table.buckets.length) :
    table.setChain index (table.chain index) = table := by
  rw [setChain, chain, List.getD, List.getElem?_eq_getElem inside, Option.getD_some,
    List.set_getElem_self]

theorem setChain_nodup (linked : table.Linked) {index : Nat} {nodes : List α}
    (nodup : nodes.Nodup) (other : Nat) :
    ((table.setChain index nodes).chain other).Nodup := by
  rw [setChain_chain]
  split_ifs
  · exact nodup
  · exact linked.chainNodup other

def empty (buckets : Nat) : LinkedTable α where
  buckets := List.replicate buckets []
  order := []

theorem empty_chain (buckets index : Nat) :
    (empty buckets : LinkedTable α).chain index = [] := by
  simp only [chain, empty, List.getD_eq_getElem?_getD, List.getElem?_replicate]
  split_ifs <;> rfl

theorem linked_empty (buckets : Nat) : (empty buckets : LinkedTable α).Linked := by
  refine ⟨List.nodup_nil, fun index => ?_, fun {first second node} member => ?_, fun node => ?_⟩
  · rw [empty_chain]
    exact List.nodup_nil
  · rw [empty_chain] at member
    cases member
  · simp only [empty_chain, List.not_mem_nil, exists_false, iff_false]
    exact List.not_mem_nil

section Link

variable {table : LinkedTable α} {index : Nat} {node : α}

theorem link_chain (other : Nat) :
    (table.link index node).chain other =
      (table.setChain index (node :: table.chain index)).chain other :=
  rfl

theorem mem_link_chain (inside : index < table.buckets.length) {other : Nat} {found : α} :
    found ∈ (table.link index node).chain other ↔
      (index = other ∧ found = node) ∨ found ∈ table.chain other := by
  rw [link_chain, mem_setChain inside]
  by_cases same : index = other <;> simp [same]

theorem Linked.link (linked : table.Linked) (inside : index < table.buckets.length)
    (fresh : node ∉ table.order) : (table.link index node).Linked := by
  have inNoChain : ∀ other, node ∉ table.chain other :=
    fun other member => fresh ((linked.mem_order node).mpr ⟨other, member⟩)
  have mem_chain : ∀ {other found}, found ∈ (table.link index node).chain other ↔
      (index = other ∧ found = node) ∨ found ∈ table.chain other := mem_link_chain inside
  refine ⟨List.nodup_cons.mpr ⟨fresh, linked.orderNodup⟩, ?_, ?_, ?_⟩
  · exact setChain_nodup linked
      (List.nodup_cons.mpr ⟨inNoChain index, linked.chainNodup index⟩)
  · intro first second found inFirst inSecond
    rcases mem_chain.mp inFirst with ⟨atFirst, rfl⟩ | oldFirst
    · rcases mem_chain.mp inSecond with ⟨atSecond, -⟩ | oldSecond
      · exact atFirst.symm.trans atSecond
      · exact absurd oldSecond (inNoChain second)
    · rcases mem_chain.mp inSecond with ⟨-, rfl⟩ | oldSecond
      · exact absurd oldFirst (inNoChain first)
      · exact linked.oneChain oldFirst oldSecond
  · intro found
    constructor
    · intro member
      rcases List.mem_cons.mp member with rfl | member
      · exact ⟨index, mem_chain.mpr (Or.inl ⟨rfl, rfl⟩)⟩
      · obtain ⟨other, inChain⟩ := (linked.mem_order found).mp member
        exact ⟨other, mem_chain.mpr (Or.inr inChain)⟩
    · rintro ⟨other, inChain⟩
      rcases mem_chain.mp inChain with ⟨-, rfl⟩ | inChain
      · exact List.mem_cons_self
      · exact List.mem_cons_of_mem node ((linked.mem_order found).mpr ⟨other, inChain⟩)

end Link

section Unlink

variable [DecidableEq α] {table : LinkedTable α} {index : Nat} {node : α}

def unlink (table : LinkedTable α) (index : Nat) (node : α) : LinkedTable α :=
  { table.setChain index ((table.chain index).erase node) with order := table.order.erase node }

def touch (table : LinkedTable α) (node : α) : LinkedTable α :=
  { table with order := node :: table.order.erase node }

theorem Linked.mem_unlink_chain (linked : table.Linked) (member : node ∈ table.chain index)
    {other : Nat} {found : α} :
    found ∈ (table.unlink index node).chain other ↔ found ≠ node ∧ found ∈ table.chain other := by
  change found ∈ (table.setChain index ((table.chain index).erase node)).chain other ↔ _
  rw [mem_setChain (index_lt member), (linked.chainNodup index).mem_erase_iff]
  constructor
  · rintro (⟨rfl, inside⟩ | ⟨different, inside⟩)
    · exact inside
    · refine ⟨?_, inside⟩
      rintro rfl
      exact different (linked.oneChain member inside)
  · rintro ⟨different, inside⟩
    by_cases same : index = other
    · exact Or.inl ⟨same, different, same ▸ inside⟩
    · exact Or.inr ⟨same, inside⟩

theorem Linked.mem_unlink (linked : table.Linked) {found : α} :
    found ∈ (table.unlink index node).order ↔ found ≠ node ∧ found ∈ table.order :=
  linked.orderNodup.mem_erase_iff

theorem Linked.unlink (linked : table.Linked) (member : node ∈ table.chain index) :
    (table.unlink index node).Linked := by
  refine ⟨linked.orderNodup.erase node, ?_, ?_, ?_⟩
  · exact setChain_nodup linked ((linked.chainNodup index).erase node)
  · intro first second found inFirst inSecond
    exact linked.oneChain ((linked.mem_unlink_chain member).mp inFirst).2
      ((linked.mem_unlink_chain member).mp inSecond).2
  · intro found
    rw [linked.mem_unlink, linked.mem_order]
    simp only [linked.mem_unlink_chain member, exists_and_left]

theorem Linked.length_unlink (member : node ∈ table.order) :
    (table.unlink index node).order.length + 1 = table.order.length := by
  have positive := List.length_pos_of_mem member
  change (table.order.erase node).length + 1 = _
  rw [List.length_erase_of_mem member]
  omega

theorem mem_touch {found : α} (member : node ∈ table.order) :
    found ∈ (table.touch node).order ↔ found ∈ table.order := by
  by_cases same : found = node
  · simp [touch, same, member]
  · simp [touch, same, List.mem_erase_of_ne same]

theorem length_touch (member : node ∈ table.order) :
    (table.touch node).order.length = table.order.length := by
  have positive := List.length_pos_of_mem member
  rw [touch, List.length_cons, List.length_erase_of_mem member]
  omega

theorem Linked.touch (linked : table.Linked) (member : node ∈ table.order) :
    (table.touch node).Linked := by
  refine ⟨?_, linked.chainNodup, linked.oneChain, fun found => ?_⟩
  · exact List.nodup_cons.mpr
      ⟨fun inside => (linked.orderNodup.mem_erase_iff.mp inside).1 rfl,
        linked.orderNodup.erase node⟩
  · rw [mem_touch member, linked.mem_order]
    exact Iff.rfl

end Unlink

end LinkedTable

end Jdbx.Library
