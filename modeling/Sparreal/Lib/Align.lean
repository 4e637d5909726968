import Mathlib.Data.Nat.Bitwise
import Mathlib.Tactic.Common

/-!
# Alignment of 64-bit words

Rounding to a multiple of a power of two with a mask, as `x & !(align - 1)` and
`(x + align - 1) & !(align - 1)` do it. `down` and `up` are the nearest multiples on the two sides
(`le_down_iff`, `up_le_iff`); `up` has no value where `x + align` leaves the word.
-/

namespace Align

/-- A power of two that is a word. -/
def IsAlignment (align : Nat) : Prop := ∃ k < 64, align = 2 ^ k

/-- `x & !(align - 1)`. -/
def down (x align : Nat) : Nat := x &&& (2 ^ 64 - 1 - (align - 1))

/-- `(x + align - 1) & !(align - 1)`. -/
def up (x align : Nat) : Option Nat :=
  if x + align < 2 ^ 64 then some (down (x + align - 1) align) else none

variable {x y b align : Nat}

theorem IsAlignment.pos (ha : IsAlignment align) : 0 < align := by
  obtain ⟨k, -, rfl⟩ := ha
  exact Nat.two_pow_pos k

theorem le_block_iff (hpos : 0 < align) (hb : align ∣ b) :
    b ≤ x / align * align ↔ b ≤ x := by
  obtain ⟨q, rfl⟩ := hb
  rw [Nat.mul_comm align q, Nat.mul_le_mul_right_iff hpos, Nat.le_div_iff_mul_le hpos]

theorem block_le_iff (hpos : 0 < align) (hb : align ∣ b) :
    x / align * align + align ≤ b ↔ x < b := by
  obtain ⟨q, rfl⟩ := hb
  rw [Nat.mul_comm align q, ← Nat.succ_mul, Nat.mul_le_mul_right_iff hpos, Nat.succ_le_iff,
    Nat.div_lt_iff_lt_mul hpos]

/-- The mask clears the bits below the alignment. -/
theorem down_eq (ha : IsAlignment align) (hx : x < 2 ^ 64) : down x align = x / align * align := by
  obtain ⟨k, hk, rfl⟩ := ha
  have hmask : 2 ^ 64 - 1 - (2 ^ k - 1) = 2 ^ 64 - (2 ^ k - 1 + 1) := by omega
  have hlow : 2 ^ k - 1 < 2 ^ 64 := by
    have := Nat.pow_lt_pow_right (a := 2) (by decide) hk
    omega
  rw [← Nat.shiftRight_eq_div_pow, ← Nat.shiftLeft_eq, down, hmask]
  refine Nat.eq_of_testBit_eq fun i => ?_
  rw [Nat.testBit_and, Nat.testBit_two_pow_sub_succ hlow, Nat.testBit_two_pow_sub_one,
    Nat.testBit_shiftLeft, Nat.testBit_shiftRight]
  rcases lt_or_ge i k with hik | hik
  · simp [hik, hik.not_ge]
  · rw [Nat.add_sub_cancel' hik]
    rcases lt_or_ge i 64 with hi | hi
    · simp [hik, hik.not_gt, hi]
    · have hbit : x.testBit i = false :=
        Nat.testBit_lt_two_pow (hx.trans_le (Nat.pow_le_pow_right (by decide) hi))
      simp [hbit]

section Down

variable (ha : IsAlignment align) (hx : x < 2 ^ 64)

include ha hx

theorem dvd_down : align ∣ down x align := by
  rw [down_eq ha hx]
  exact Nat.dvd_mul_left _ _

theorem down_le : down x align ≤ x := by
  rw [down_eq ha hx]
  exact Nat.div_mul_le_self _ _

theorem lt_down_add : x < down x align + align := by
  rw [down_eq ha hx]
  exact Nat.lt_div_mul_add ha.pos

theorem le_down_iff (hb : align ∣ b) : b ≤ down x align ↔ b ≤ x := by
  rw [down_eq ha hx, le_block_iff ha.pos hb]

end Down

theorem up_eq_some : up x align = some y ↔ x + align < 2 ^ 64 ∧ down (x + align - 1) align = y := by
  rw [up, Option.ite_none_right_eq_some, Option.some.injEq]

theorem up_eq_none : up x align = none ↔ ¬ x + align < 2 ^ 64 := by
  rw [up, ite_eq_right_iff]
  simp only [reduceCtorEq, imp_false]

section Up

variable (ha : IsAlignment align) (hup : up x align = some y)

include ha hup

theorem dvd_up : align ∣ y := by
  obtain ⟨hlt, rfl⟩ := up_eq_some.mp hup
  exact dvd_down ha (by omega)

theorem le_up : x ≤ y := by
  obtain ⟨hlt, rfl⟩ := up_eq_some.mp hup
  have hnext := lt_down_add ha (x := x + align - 1) (by omega)
  have hpos := ha.pos
  omega

theorem up_lt : y < x + align := by
  obtain ⟨hlt, rfl⟩ := up_eq_some.mp hup
  have hle := down_le ha (x := x + align - 1) (by omega)
  have hpos := ha.pos
  omega

theorem up_le_iff (hb : align ∣ b) : y ≤ b ↔ x ≤ b := by
  refine ⟨(le_up ha hup).trans, fun h => ?_⟩
  by_contra hlt
  obtain ⟨p, rfl⟩ := dvd_up ha hup
  obtain ⟨q, rfl⟩ := hb
  have hnext := Nat.mul_le_mul_left align (Nat.lt_of_mul_lt_mul_left (Nat.not_le.mp hlt))
  have hclose := up_lt ha hup
  rw [Nat.mul_succ] at hnext
  omega

end Up

end Align
