import Mathlib.Data.List.Basic
import Mathlib.Data.List.Nodup

/-!
# Chained hash tables

A table is an array of chains, and a node goes to the front of the chain that
its hash names.  `Placed` says that a table holds given nodes, each once and in
its own chain; insertion, removal and a rebuild with another hash keep it.
-/

namespace Jdbx.Library

variable {α : Type} {bucket : α → Nat} {nodes : α → Prop} {table : List (List α)} {node : α}

def chainAt (table : List (List α)) (index : Nat) : List α :=
  table.getD index []

def pushNode (bucket : α → Nat) (table : List (List α)) (node : α) : List (List α) :=
  table.modify (bucket node) fun chain => node :: chain

/-- Move every node, chain by chain, into a table of `size` chains. -/
def rehash (bucket : α → Nat) (size : Nat) (table : List (List α)) : List (List α) :=
  table.foldl (fun rebuilt chain => chain.foldl (pushNode bucket) rebuilt)
    (List.replicate size [])

theorem chainAt_modify (table : List (List α)) (changed index : Nat)
    (change : List α → List α) (unchanged : change [] = [] ∨ changed < table.length) :
    chainAt (table.modify changed change) index =
      if changed = index then change (chainAt table index) else chainAt table index := by
  unfold chainAt
  rw [List.getD_eq_getElem?_getD, List.getD_eq_getElem?_getD, List.getElem?_modify]
  split
  · rename_i same
    subst same
    cases found : table[changed]? with
    | some chain => rfl
    | none =>
        have outside : ¬ changed < table.length :=
          Nat.not_lt.mpr (List.getElem?_eq_none_iff.mp found)
        exact (unchanged.resolve_right outside).symm
  · rw [id_map']

/-- The table holds `nodes`, each once and in its own chain. -/
structure Placed (bucket : α → Nat) (nodes : α → Prop) (table : List (List α)) : Prop where
  mem_chain : ∀ index node, node ∈ chainAt table index ↔ nodes node ∧ bucket node = index
  nodup : ∀ index, (chainAt table index).Nodup
  inside : ∀ node, nodes node → bucket node < table.length

theorem placed_replicate (bucket : α → Nat) (size : Nat) :
    Placed bucket (fun _ => False) (List.replicate size []) := by
  have empty (index : Nat) : chainAt (List.replicate size ([] : List α)) index = [] := by
    rw [chainAt, List.getD_eq_getElem?_getD, List.getElem?_replicate]
    split <;> rfl
  refine ⟨fun index node => ?_, fun index => ?_, fun _ none => none.elim⟩
  · simp [empty]
  · simp [empty]

theorem Placed.congr {other : α → Nat} {same : α → Prop} (placed : Placed bucket nodes table)
    (buckets : ∀ node, nodes node → other node = bucket node)
    (members : ∀ node, same node ↔ nodes node) : Placed other same table where
  mem_chain index node := by
    rw [placed.mem_chain, members]
    apply and_congr_right
    intro member
    rw [buckets node member]
  nodup := placed.nodup
  inside node member := by
    have held : nodes node := (members node).mp member
    rw [buckets node held]
    exact placed.inside node held

theorem Placed.push (placed : Placed bucket nodes table) (fresh : ¬ nodes node)
    (inside : bucket node < table.length) :
    Placed bucket (fun other => other = node ∨ nodes other) (pushNode bucket table node) := by
  have chain (index : Nat) : chainAt (pushNode bucket table node) index =
      if bucket node = index then node :: chainAt table index else chainAt table index :=
    chainAt_modify table (bucket node) index _ (Or.inr inside)
  constructor
  · intro index other
    rw [chain]
    split
    · rename_i own
      rw [List.mem_cons, placed.mem_chain]
      constructor
      · rintro (rfl | ⟨member, at_⟩)
        · exact ⟨Or.inl rfl, own⟩
        · exact ⟨Or.inr member, at_⟩
      · rintro ⟨rfl | member, at_⟩
        · exact Or.inl rfl
        · exact Or.inr ⟨member, at_⟩
    · rename_i elsewhere
      rw [placed.mem_chain]
      constructor
      · rintro ⟨member, at_⟩
        exact ⟨Or.inr member, at_⟩
      · rintro ⟨rfl | member, at_⟩
        · exact absurd at_ elsewhere
        · exact ⟨member, at_⟩
  · intro index
    rw [chain]
    split
    · apply List.nodup_cons.mpr
      refine ⟨fun member => fresh ?_, placed.nodup index⟩
      exact ((placed.mem_chain index node).mp member).1
    · exact placed.nodup index
  · intro other member
    rw [pushNode, List.length_modify]
    rcases member with rfl | member
    · exact inside
    · exact placed.inside other member

theorem eraseP_congr {items : List α} {left right : α → Bool}
    (same : ∀ node ∈ items, left node = right node) : items.eraseP left = items.eraseP right := by
  induction items with
  | nil => rfl
  | cons first rest ih =>
      have tail := ih fun node member =>
        same node (List.mem_cons_of_mem first member)
      rw [List.eraseP_cons, List.eraseP_cons, same first List.mem_cons_self, tail]

theorem Placed.eraseP [DecidableEq α] (placed : Placed bucket nodes table) {index : Nat}
    {found : α → Bool} (own : bucket node = index)
    (only : ∀ other, nodes other → bucket other = index → (found other = true ↔ other = node)) :
    Placed bucket (fun other => nodes other ∧ other ≠ node)
      (table.modify index fun chain => chain.eraseP found) := by
  have erased : (chainAt table index).eraseP found = (chainAt table index).erase node := by
    rw [List.erase_eq_eraseP]
    apply eraseP_congr
    intro other member
    obtain ⟨held, at_⟩ := (placed.mem_chain index other).mp member
    rw [Bool.eq_iff_iff, only other held at_, beq_iff_eq, eq_comm]
  have chain (at_ : Nat) : chainAt (table.modify index fun chain => chain.eraseP found) at_ =
      (chainAt table at_).erase node := by
    rw [chainAt_modify table index at_ _ (Or.inl rfl)]
    split
    · rename_i same
      rw [← same, erased]
    · rename_i elsewhere
      symm
      apply List.erase_of_not_mem
      intro member
      exact elsewhere (own.symm.trans ((placed.mem_chain at_ node).mp member).2)
  constructor
  · intro at_ other
    rw [chain, (placed.nodup at_).mem_erase_iff, placed.mem_chain]
    constructor
    · rintro ⟨different, held, place⟩
      exact ⟨⟨held, different⟩, place⟩
    · rintro ⟨⟨held, different⟩, place⟩
      exact ⟨different, held, place⟩
  · intro at_
    rw [chain]
    exact (placed.nodup at_).erase node
  · intro other held
    rw [List.length_modify]
    exact placed.inside other held.1

theorem Placed.find? (placed : Placed bucket nodes table) {found : α → Bool} {index : Nat}
    (unique : ∀ other, nodes other → bucket other = index → found other = true → other = node) :
    (chainAt table index).find? found = some node ↔
      nodes node ∧ bucket node = index ∧ found node = true := by
  constructor
  · intro result
    obtain ⟨held, at_⟩ := (placed.mem_chain index node).mp (List.mem_of_find?_eq_some result)
    exact ⟨held, at_, List.find?_some result⟩
  · rintro ⟨held, at_, matched⟩
    have member : node ∈ chainAt table index := (placed.mem_chain index node).mpr ⟨held, at_⟩
    cases result : (chainAt table index).find? found with
    | none => exact absurd matched (List.find?_eq_none.mp result node member)
    | some other =>
        obtain ⟨otherHeld, otherAt⟩ :=
          (placed.mem_chain index other).mp (List.mem_of_find?_eq_some result)
        rw [unique other otherHeld otherAt (List.find?_some result)]

theorem mem_flatten_iff_chainAt :
    node ∈ table.flatten ↔ ∃ index, node ∈ chainAt table index := by
  rw [List.mem_flatten]
  constructor
  · rintro ⟨chain, member, inChain⟩
    obtain ⟨index, inside, rfl⟩ := List.mem_iff_getElem.mp member
    exact ⟨index, by simpa [chainAt, List.getD_eq_getElem?_getD, inside] using inChain⟩
  · rintro ⟨index, member⟩
    by_cases inside : index < table.length
    · refine ⟨table[index], List.getElem_mem inside, ?_⟩
      simpa [chainAt, List.getD_eq_getElem?_getD, inside] using member
    · simp [chainAt, List.getD_eq_getElem?_getD, inside] at member

theorem Placed.mem_flatten (placed : Placed bucket nodes table) :
    node ∈ table.flatten ↔ nodes node := by
  rw [mem_flatten_iff_chainAt]
  constructor
  · rintro ⟨index, member⟩
    exact ((placed.mem_chain index node).mp member).1
  · intro held
    exact ⟨bucket node, (placed.mem_chain (bucket node) node).mpr ⟨held, rfl⟩⟩

theorem Placed.nodup_flatten (placed : Placed bucket nodes table) : table.flatten.Nodup := by
  have chainAt_getElem (index : Nat) (inside : index < table.length) :
      chainAt table index = table[index] := by
    simp [chainAt, List.getD_eq_getElem?_getD, inside]
  rw [List.nodup_flatten]
  constructor
  · intro chain member
    obtain ⟨index, inside, rfl⟩ := List.mem_iff_getElem.mp member
    rw [← chainAt_getElem index inside]
    exact placed.nodup index
  · rw [List.pairwise_iff_getElem]
    intro index later inside laterInside before node member laterMember
    rw [← chainAt_getElem _ inside] at member
    rw [← chainAt_getElem _ laterInside] at laterMember
    have at_ := ((placed.mem_chain index node).mp member).2
    have laterAt := ((placed.mem_chain later node).mp laterMember).2
    omega

theorem Placed.flatten_perm (placed : Placed bucket nodes table) {items : List α}
    (distinct : items.Nodup) (members : ∀ node, nodes node ↔ node ∈ items) :
    table.flatten.Perm items := by
  apply (List.perm_ext_iff_of_nodup placed.nodup_flatten distinct).mpr
  intro node
  rw [placed.mem_flatten, members]

theorem foldl_pushNode_length (items : List α) (table : List (List α)) :
    (items.foldl (pushNode bucket) table).length = table.length := by
  induction items generalizing table with
  | nil => rfl
  | cons node items ih => rw [List.foldl_cons, ih, pushNode, List.length_modify]

theorem rehash_eq_foldl (bucket : α → Nat) (size : Nat) (table : List (List α)) :
    rehash bucket size table =
      table.flatten.foldl (pushNode bucket) (List.replicate size []) := by
  rw [rehash, List.foldl_flatten]

theorem rehash_length (size : Nat) : (rehash bucket size table).length = size := by
  rw [rehash_eq_foldl, foldl_pushNode_length, List.length_replicate]

theorem Placed.pushAll :
    ∀ {items : List α} {nodes : α → Prop} {table : List (List α)}, Placed bucket nodes table →
      items.Nodup → (∀ node ∈ items, ¬ nodes node ∧ bucket node < table.length) →
        Placed bucket (fun node => node ∈ items ∨ nodes node)
          (items.foldl (pushNode bucket) table) := by
  intro items
  induction items with
  | nil =>
      intro nodes table placed _ _
      exact placed.congr (fun _ _ => rfl) fun node => by simp
  | cons first rest ih =>
      intro nodes table placed distinct fresh
      obtain ⟨notAgain, distinctRest⟩ := List.nodup_cons.mp distinct
      obtain ⟨freshFirst, insideFirst⟩ := fresh first List.mem_cons_self
      have pushed := placed.push freshFirst insideFirst
      have all := ih pushed distinctRest fun node member => by
        obtain ⟨freshNode, inside⟩ := fresh node (List.mem_cons_of_mem first member)
        refine ⟨?_, by rwa [pushNode, List.length_modify]⟩
        rintro (rfl | held)
        · exact notAgain member
        · exact freshNode held
      refine all.congr (fun _ _ => rfl) fun node => ?_
      rw [List.mem_cons]
      tauto

theorem Placed.rehash {other : α → Nat} {size : Nat} (placed : Placed bucket nodes table)
    (inside : ∀ node, nodes node → other node < size) :
    Placed other nodes (rehash other size table) := by
  rw [rehash_eq_foldl]
  have all := (placed_replicate other size).pushAll placed.nodup_flatten fun node member => by
    refine ⟨id, ?_⟩
    rw [List.length_replicate]
    exact inside node (placed.mem_flatten.mp member)
  refine all.congr (fun _ _ => rfl) fun node => ?_
  rw [placed.mem_flatten, or_false]

end Jdbx.Library
