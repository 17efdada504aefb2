import Mathlib.Algebra.Ring.Int.Defs
import Mathlib.Tactic.SplitIfs

/-!
# Arithmetic in `int`

A computation that leaves the range of `int` has no result.
-/

namespace Jdbx

/-- The greatest `int`. -/
def intMax : Int :=
  2 ^ 31 - 1

/-- The result of an `int` computation. -/
def asInt (value : Int) : Option Int :=
  if -2 ^ 31 ≤ value ∧ value ≤ intMax then some value else none

theorem asInt_natCast (value : Nat) :
    asInt value = if value ≤ 2147483647 then some (value : Int) else none := by
  have same : (-2 ^ 31 ≤ (value : Int) ∧ (value : Int) ≤ intMax) ↔ value ≤ 2147483647 := by
    simp only [intMax]
    omega
  rw [asInt, ite_congr (propext same) (fun _ => rfl) fun _ => rfl]

theorem asInt_of_between {value : Int} (low : -2147483648 ≤ value) (small : value ≤ 2147483647) :
    asInt value = some value := by
  rw [asInt, intMax, if_pos (by omega)]

theorem asInt_of_small {value : Int} (notNegative : 0 ≤ value) (small : value ≤ 2147483647) :
    asInt value = some value :=
  asInt_of_between (by omega) small

theorem asInt_eq_some {value result : Int} (fits : asInt value = some result) :
    value = result ∧ value ≤ 2147483647 := by
  rw [asInt, intMax] at fits
  split_ifs at fits with inRange
  exact ⟨Option.some.inj fits, by omega⟩

end Jdbx
