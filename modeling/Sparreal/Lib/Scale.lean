import Mathlib.Algebra.Order.Ring.Nat
import Mathlib.Data.Nat.Init
import Mathlib.Tactic.Common

/-!
# Scaling with rounding down

A number of units, of which `q` are worth `p` others, is converted to the others by `n * p / q`. The conversion is
monotone, converting there and back never gains, and it loses no more than a unit of the others is worth, rounded
up (`le_back_add`).
-/

namespace Scale

/-- `n` units, of which `q` are worth `p` others, in the others. -/
def convert (p q n : Nat) : Nat := n * p / q

variable {p q : Nat}

theorem convert_mono {m n : Nat} (h : m ≤ n) : convert p q m ≤ convert p q n :=
  Nat.div_le_div_right (Nat.mul_le_mul_right p h)

theorem convert_mul_le (p q n : Nat) : convert p q n * q ≤ n * p := Nat.div_mul_le_self _ _

theorem lt_convert_mul_add (hq : 0 < q) (n : Nat) : n * p < convert p q n * q + q := Nat.lt_div_mul_add hq

theorem le_convert_iff (hq : 0 < q) {m n : Nat} : m ≤ convert p q n ↔ m * q ≤ n * p :=
  Nat.le_div_iff_mul_le hq

/-- Whole groups of `q` convert exactly. -/
theorem convert_group (hq : 0 < q) (k n : Nat) : convert p q (k * q + n) = k * p + convert p q n := by
  have hsplit : (k * q + n) * p = k * p * q + n * p := by rw [Nat.add_mul, Nat.mul_right_comm]
  rw [convert, hsplit, Nat.mul_comm (k * p) q, Nat.mul_add_div hq]
  rfl

theorem convert_lt {n : Nat} (hn : n < q) (hp : 0 < p) : convert p q n < p := by
  rw [convert, Nat.div_lt_iff_lt_mul (Nat.zero_lt_of_lt hn), Nat.mul_comm p q]
  exact Nat.mul_lt_mul_of_pos_right hn hp

theorem back_le (hp : 0 < p) (n : Nat) : convert q p (convert p q n) ≤ n := by
  refine Nat.le_of_mul_le_mul_right ?_ hp
  calc convert q p (convert p q n) * p
    _ ≤ convert p q n * q := convert_mul_le q p _
    _ ≤ n * p := convert_mul_le p q n

/-- The way there and back loses at most `q / p`, rounded up. -/
theorem le_back_add (hp : 0 < p) (hq : 0 < q) (n : Nat) :
    n - (q + p - 1) / p ≤ convert q p (convert p q n) := by
  have hceil : q ≤ (q + p - 1) / p * p := by
    have hlt := Nat.lt_div_mul_add hp (a := q + p - 1)
    omega
  rw [le_convert_iff hp, Nat.sub_mul]
  have hlt := lt_convert_mul_add (p := p) hq n
  omega

end Scale
