import Mathlib.Data.List.Basic

/-!
# Calls that write into blocks

A call allocates blocks and writes into them from their start.  What is recorded of a write is
the size of its block and where the write ends.
-/

namespace Jdbx.Library

/-- A write into a block of `size` bytes that ends in front of the offset `stop`. -/
structure BlockWrite where
  size : Nat
  stop : Nat
  deriving DecidableEq

/-- A call is given how many allocations succeed before the first that fails.  It leaves its
writes, and returns nothing once an allocation has failed. -/
def Writer (α : Type) : Type :=
  Nat → List BlockWrite × Option (α × Nat)

namespace Writer

variable {α β : Type}

def fail : Writer α :=
  fun _ => ([], none)

def allocate : Writer Unit
  | 0 => ([], none)
  | granted + 1 => ([], some ((), granted))

def put (size stop : Nat) : Writer Unit :=
  fun granted => ([{ size, stop }], some ((), granted))

def andThen (rest : α → Writer β) :
    List BlockWrite × Option (α × Nat) → List BlockWrite × Option (β × Nat)
  | (writes, none) => (writes, none)
  | (writes, some (value, granted)) => (writes ++ (rest value granted).1, (rest value granted).2)

instance : Monad Writer where
  pure value := fun granted => ([], some (value, granted))
  bind call rest := fun granted => andThen rest (call granted)

def Ensures (call : Writer α) (post : α → Prop) : Prop :=
  ∀ granted, (∀ write ∈ (call granted).1, write.stop ≤ write.size) ∧
    ∀ value left, (call granted).2 = some (value, left) → post value

variable {call : Writer α} {rest : α → Writer β} {middle : α → Prop} {post : β → Prop}

theorem ensures_pure {post : α → Prop} {value : α} (holds : post value) :
    Ensures (pure value) post := by
  refine fun granted => ⟨fun write member => absurd member List.not_mem_nil, ?_⟩
  intro returned left same
  cases same
  exact holds

theorem ensures_fail {post : α → Prop} : Ensures fail post :=
  fun _ => ⟨fun _ member => absurd member List.not_mem_nil, nofun⟩

theorem ensures_allocate : Ensures allocate fun _ => True := by
  intro granted
  refine ⟨fun write member => ?_, fun _ _ _ => trivial⟩
  cases granted <;> exact absurd member List.not_mem_nil

theorem ensures_put {size stop : Nat} (inside : stop ≤ size) :
    Ensures (put size stop) fun _ => True := by
  refine fun granted => ⟨fun write member => ?_, fun _ _ _ => trivial⟩
  rw [List.mem_singleton.mp member]
  exact inside

theorem Ensures.bind (first : Ensures call middle)
    (second : ∀ value, middle value → Ensures (rest value) post) :
    Ensures (call >>= rest) post := by
  intro granted
  have inside := (first granted).1
  have returned := (first granted).2
  change (∀ write ∈ (andThen rest (call granted)).1, write.stop ≤ write.size) ∧
    ∀ value left, (andThen rest (call granted)).2 = some (value, left) → post value
  match call granted, inside, returned with
  | (writes, none), inside, _ => exact ⟨inside, nofun⟩
  | (writes, some (value, left)), inside, returned =>
      have behind := second value (returned value left rfl) left
      exact ⟨List.forall_mem_append.mpr ⟨inside, behind.1⟩, behind.2⟩

theorem Ensures.mono {wanted : α → Prop} (holds : Ensures call middle)
    (weaker : ∀ value, middle value → wanted value) : Ensures call wanted :=
  fun granted => ⟨(holds granted).1, fun value left same =>
    weaker value ((holds granted).2 value left same)⟩

theorem Ensures.result_eq_none (never : Ensures call fun _ => False) (granted : Nat) :
    (call granted).2 = none := by
  cases result : (call granted).2 with
  | none => rfl
  | some returned => exact ((never granted).2 returned.1 returned.2 result).elim

theorem Ensures.bind_result {other : α → Writer β} (first : Ensures call middle)
    (same : ∀ value left, middle value → (rest value left).2 = (other value left).2)
    (granted : Nat) : ((call >>= rest) granted).2 = ((call >>= other) granted).2 := by
  have returned := (first granted).2
  change (andThen rest (call granted)).2 = (andThen other (call granted)).2
  match call granted, returned with
  | (writes, none), _ => rfl
  | (writes, some (value, left)), returned => exact same value left (returned value left rfl)

theorem ensures_foldlM {turn : β → α → Writer β} (invariant : β → List α → Prop)
    (keeps : ∀ state item items, invariant state (item :: items) →
      Ensures (turn state item) (invariant · items)) :
    ∀ {items : List α} {state : β}, invariant state items →
      Ensures (items.foldlM turn state) (invariant · [])
  | [], _, holds => ensures_pure holds
  | item :: items, state, holds => by
      rw [List.foldlM_cons]
      exact (keeps state item items holds).bind fun _ next => ensures_foldlM invariant keeps next

end Writer

end Jdbx.Library
