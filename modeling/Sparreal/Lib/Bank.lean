import Mathlib.Logic.Function.Basic
import Mathlib.Tactic.Common

/-!
# Banks of registers

A `Bank` is an array of equal registers. An access outside the array fails, as an index panic does. How a register
reacts to what is written is the caller's `write : BitVec w → BitVec w`: a plain register takes the value, one that
is written with ones to clear takes them away. `forRange` is a loop that writes the registers of an index range, and
`forRange_eq` is what it leaves: the range written, the rest as it was.
-/

abbrev Bank (n w : Nat) : Type := Fin n → BitVec w

namespace Bank

variable {n w : Nat}

def read (bank : Bank n w) (i : Nat) : Option (BitVec w) := if h : i < n then some (bank ⟨i, h⟩) else none

def store (write : BitVec w → BitVec w) (bank : Bank n w) (i : Nat) : Option (Bank n w) :=
  if h : i < n then some (Function.update bank ⟨i, h⟩ (write (bank ⟨i, h⟩))) else none

/-- `count` writes, from register `i` on. -/
def sweep (write : BitVec w → BitVec w) : Nat → Nat → Bank n w → Option (Bank n w)
  | _, 0, bank => some bank
  | i, count + 1, bank => (bank.store write i).bind (sweep write (i + 1) count)

/-- `for i in lo..hi`. -/
def forRange (write : BitVec w → BitVec w) (lo hi : Nat) (bank : Bank n w) : Option (Bank n w) :=
  sweep write lo (hi - lo) bank

theorem read_eq (bank : Bank n w) {i : Nat} (h : i < n) : bank.read i = some (bank ⟨i, h⟩) := dif_pos h

theorem sweep_eq (write : BitVec w → BitVec w) (count : Nat) :
    ∀ (i : Nat) (bank : Bank n w), i + count ≤ n →
      sweep write i count bank =
        some fun j => if i ≤ j.val ∧ j.val < i + count then write (bank j) else bank j := by
  induction count with
  | zero =>
    intro i bank _
    rw [sweep]
    congr 1
    funext j
    rw [if_neg (by omega)]
  | succ count ih =>
    intro i bank h
    rw [sweep, store, dif_pos (by omega), Option.bind_some, ih (i + 1) _ (by omega)]
    congr 1
    funext j
    by_cases hj : j.val = i
    · subst hj
      rw [if_neg (by omega), if_pos (by omega), Function.update_self]
    · rw [Function.update_of_ne (fun h => hj (congrArg Fin.val h))]
      congr 1
      apply propext
      omega

theorem forRange_eq (write : BitVec w → BitVec w) {lo hi : Nat} (bank : Bank n w) (h : hi ≤ n) :
    forRange write lo hi bank = some fun j => if lo ≤ j.val ∧ j.val < hi then write (bank j) else bank j := by
  unfold forRange
  by_cases hlo : lo ≤ hi
  · rw [sweep_eq write _ _ _ (by omega), Nat.add_sub_cancel' hlo]
  · rw [Nat.sub_eq_zero_of_le (by omega), sweep]
    congr 1
    funext j
    rw [if_neg (by omega)]

end Bank
