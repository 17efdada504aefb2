import Mathlib.Data.List.Chain
import Mathlib.Data.List.Nodup
import Mathlib.Order.Defs.LinearOrder
import Jdbx.Library.Memory

/-!
# Redo logs

A redo log keeps records with a stamp, and recovery applies, oldest first, the
records whose stamp is above a mark.  A record that overwrites a block of memory
may be applied again, as long as all later ones are.  The records stand in pages
that form a ring, and the pages in use are a path along the ring.
-/

namespace Jdbx.Library

section Pending

variable {τ ρ σ : Type} [LinearOrder τ]

def pending (mark : τ) (records : List (τ × ρ)) : List ρ :=
  (records.filter fun record => mark < record.1).map Prod.snd

@[simp]
theorem pending_nil (mark : τ) : pending mark ([] : List (τ × ρ)) = [] :=
  rfl

theorem pending_append (mark : τ) (older newer : List (τ × ρ)) :
    pending mark (older ++ newer) = pending mark older ++ pending mark newer := by
  simp [pending]

theorem pending_cons_of_lt {mark : τ} {record : τ × ρ} (above : mark < record.1)
    (records : List (τ × ρ)) :
    pending mark (record :: records) = record.2 :: pending mark records := by
  simp [pending, above]

theorem pending_cons_of_le {mark : τ} {record : τ × ρ} (atMost : record.1 ≤ mark)
    (records : List (τ × ρ)) :
    pending mark (record :: records) = pending mark records := by
  simp [pending, Std.not_lt.mpr atMost]

theorem pending_eq_nil {mark : τ} {records : List (τ × ρ)}
    (stamped : ∀ record ∈ records, record.1 ≤ mark) :
    pending mark records = [] := by
  induction records with
  | nil => rfl
  | cons record records ih =>
      rw [pending_cons_of_le (stamped record List.mem_cons_self)]
      apply ih
      intro other member
      exact stamped other (List.mem_cons_of_mem record member)

end Pending

section Blocks

variable {blocks done : List (Nat × Bytes)} {memory other : Memory} {address : Nat}

def writeBlocks (blocks : List (Nat × Bytes)) (memory : Memory) : Memory :=
  blocks.foldl (fun memory block => writeBytes memory block.1 block.2) memory

@[simp]
theorem writeBlocks_cons (block : Nat × Bytes) (blocks : List (Nat × Bytes)) (memory : Memory) :
    writeBlocks (block :: blocks) memory =
      writeBlocks blocks (writeBytes memory block.1 block.2) :=
  rfl

def Covered (blocks : List (Nat × Bytes)) (address : Nat) : Prop :=
  ∃ block ∈ blocks, block.1 ≤ address ∧ address < block.1 + block.2.length

theorem writeBlocks_of_not_covered (uncovered : ¬ Covered blocks address) :
    writeBlocks blocks memory address = memory address := by
  induction blocks generalizing memory with
  | nil => rfl
  | cons block blocks ih =>
      have rest : ¬ Covered blocks address := by
        rintro ⟨later, member, inside⟩
        exact uncovered ⟨later, List.mem_cons_of_mem block member, inside⟩
      have outside : address < block.1 ∨ block.1 + block.2.length ≤ address := by
        by_contra inside
        exact uncovered ⟨block, List.mem_cons_self, by omega, by omega⟩
      rw [writeBlocks_cons, ih rest, writeBytes_of_outside outside]

theorem writeBlocks_congr (agree : ∀ address, memory address = other address ∨
    Covered blocks address) : writeBlocks blocks memory = writeBlocks blocks other := by
  induction blocks generalizing memory other with
  | nil =>
      funext address
      rcases agree address with same | ⟨block, member, _⟩
      · exact same
      · cases member
  | cons block blocks ih =>
      rw [writeBlocks_cons, writeBlocks_cons]
      apply ih
      intro address
      by_cases inside : block.1 ≤ address ∧ address < block.1 + block.2.length
      · obtain ⟨offset, rfl⟩ := Nat.exists_eq_add_of_le inside.1
        have bound : offset < block.2.length := by omega
        rw [writeBytes_of_inside bound, writeBytes_of_inside bound]
        exact Or.inl rfl
      · rw [writeBytes_of_outside (by omega), writeBytes_of_outside (by omega)]
        rcases agree address with same | ⟨covering, member, covers⟩
        · exact Or.inl same
        · rcases List.mem_cons.mp member with rfl | later
          · exact absurd covers inside
          · exact Or.inr ⟨covering, later, covers⟩

theorem writeBlocks_of_subset (subset : done ⊆ blocks) :
    writeBlocks blocks (writeBlocks done memory) = writeBlocks blocks memory := by
  apply writeBlocks_congr
  intro address
  by_cases covered : Covered done address
  · obtain ⟨block, member, inside⟩ := covered
    exact Or.inr ⟨block, subset member, inside⟩
  · exact Or.inl (writeBlocks_of_not_covered covered)

end Blocks

section Ring

variable {α : Type} {next : α → α} {pages : List α}

def RingPath (next : α → α) (pages : List α) : Prop :=
  pages.IsChain fun page follower => next page = follower

theorem RingPath.tail {page : α} (path : RingPath next (page :: pages)) :
    RingPath next pages :=
  List.IsChain.tail path

theorem ringPath_singleton (page : α) : RingPath next [page] :=
  List.isChain_singleton page

theorem RingPath.concat {last : α} (path : RingPath next pages)
    (ends : pages.getLast? = some last) :
    RingPath next (pages ++ [next last]) := by
  apply List.isChain_append.mpr
  refine ⟨path, List.isChain_singleton _, ?_⟩
  intro page isLast follower isHead
  rw [ends] at isLast
  cases isLast
  cases isHead
  rfl

theorem RingPath.predecessor {first : α} (path : RingPath next (first :: pages)) {page : α}
    (member : page ∈ pages) :
    ∃ before ∈ (first :: pages).dropLast, next before = page := by
  induction pages generalizing first with
  | nil => cases member
  | cons second pages ih =>
      have step : next first = second := by
        have chained := List.isChain_cons_cons.mp path
        exact chained.1
      rcases List.mem_cons.mp member with rfl | inTail
      · exact ⟨first, by simp, step⟩
      · obtain ⟨before, found, follows⟩ := ih path.tail inTail
        refine ⟨before, ?_, follows⟩
        rw [List.dropLast_cons_cons]
        exact List.mem_cons_of_mem first found

theorem RingPath.next_last_not_mem {first last : α} (path : RingPath next (first :: pages))
    (nodup : (first :: pages).Nodup)
    (injective : ∀ left ∈ first :: pages, ∀ right ∈ first :: pages,
      next left = next right → left = right) (ends : (first :: pages).getLast? = some last)
    (notFirst : next last ≠ first) :
    next last ∉ first :: pages := by
  intro member
  rcases List.mem_cons.mp member with same | inTail
  · exact notFirst same
  · obtain ⟨before, found, follows⟩ := path.predecessor inTail
    have split : (first :: pages).dropLast ++ [last] = first :: pages :=
      List.dropLast_append_getLast? last ends
    have lastMember : last ∈ first :: pages := by
      rw [← split]
      simp
    have beforeMember : before ∈ first :: pages := List.dropLast_subset _ found
    have same : before = last := injective before beforeMember last lastMember follows
    rw [← split] at nodup
    have disjoint := (List.nodup_append.mp nodup).2.2 before found last (by simp)
    exact disjoint same

end Ring

end Jdbx.Library
