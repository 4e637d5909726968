import Mathlib.Algebra.BigOperators.Group.Finset.Basic
import Mathlib.Tactic.Ring

/-!
# Mixed radix

Numbers written with a weight for each place, where a place is as wide as the next weight allows, and a rest below the
lowest weight.
-/

namespace MixedRadix

open Finset

variable {w : Nat → Nat} {n : Nat}

theorem sum_digits {b : Nat → Nat} (hw : ∀ i < n, w (i + 1) = w i * b i) (v : Nat) :
    ∑ i ∈ range n, v / w i % b i * w i + v % w 0 = v % w n := by
  induction n with
  | zero => simp
  | succ n ih =>
    rw [sum_range_succ, hw n (Nat.lt_succ_self n), Nat.mod_mul, ← ih fun i hi => hw i (by omega)]
    ring

variable {digit digit' : Nat → Nat} {rest rest' : Nat}

theorem sum_lt (hdigit : ∀ i < n, (digit i + 1) * w i ≤ w (i + 1)) (hrest : rest < w 0) :
    ∑ i ∈ range n, digit i * w i + rest < w n := by
  induction n with
  | zero => simpa using hrest
  | succ n ih =>
    have hlt := ih fun i hi => hdigit i (by omega)
    have htop := hdigit n (Nat.lt_succ_self n)
    rw [Nat.succ_mul] at htop
    rw [sum_range_succ]
    omega

theorem digits_unique (hdigit : ∀ i < n, (digit i + 1) * w i ≤ w (i + 1)) (hrest : rest < w 0)
    (hdigit' : ∀ i < n, (digit' i + 1) * w i ≤ w (i + 1)) (hrest' : rest' < w 0)
    (h : ∑ i ∈ range n, digit i * w i + rest = ∑ i ∈ range n, digit' i * w i + rest') :
    (∀ i < n, digit i = digit' i) ∧ rest = rest' := by
  induction n with
  | zero => exact ⟨fun i hi => absurd hi (Nat.not_lt_zero i), by simpa using h⟩
  | succ n ih =>
    have hlow : ∀ i < n, (digit i + 1) * w i ≤ w (i + 1) := fun i hi => hdigit i (by omega)
    have hlow' : ∀ i < n, (digit' i + 1) * w i ≤ w (i + 1) := fun i hi => hdigit' i (by omega)
    have hlt := sum_lt hlow hrest
    have hlt' := sum_lt hlow' hrest'
    have hpos : 0 < w n := by omega
    rw [sum_range_succ, sum_range_succ, Nat.add_right_comm, Nat.add_right_comm _ (digit' n * w n)] at h
    -- the digit of the highest weight is what division by it leaves
    have htop : digit n = digit' n := by
      have hdiv := congrArg (· / w n) h
      simpa only [Nat.add_mul_div_right _ _ hpos, Nat.div_eq_of_lt hlt, Nat.div_eq_of_lt hlt', Nat.zero_add] using hdiv
    rw [htop] at h
    obtain ⟨hdigits, hrests⟩ := ih hlow hlow' (by omega)
    refine ⟨fun i hi => ?_, hrests⟩
    rcases Nat.lt_succ_iff_lt_or_eq.mp hi with hi | rfl
    · exact hdigits i hi
    · exact htop

end MixedRadix
