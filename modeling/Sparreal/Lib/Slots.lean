import Mathlib.Data.Set.Lattice
import Mathlib.Order.CompletePartialOrder
import Mathlib.Order.Interval.Set.Disjoint
import Mathlib.Order.Interval.Set.LinearOrder

/-!
# Slots at equal distances

A row of slots, each `stride` behind the one before. A slot ends before the next one starts (`end_le_start`), so the
slots are disjoint, and the first `n` of them end before the slot `n` would start.
-/

/-- Slots of one size in a row. -/
structure Slots where
  base : Nat
  stride : Nat
  size : Nat
  size_le : size ≤ stride

namespace Slots

def start (s : Slots) (i : Nat) : Nat := s.base + i * s.stride

variable {s : Slots} {i j : Nat}

theorem base_le_start (s : Slots) (i : Nat) : s.base ≤ s.start i := Nat.le_add_right _ _

theorem end_le_start (h : i < j) : s.start i + s.size ≤ s.start j := by
  have hnext : (i + 1) * s.stride ≤ j * s.stride := Nat.mul_le_mul_right _ h
  have hsize := s.size_le
  rw [Nat.succ_mul] at hnext
  unfold start
  omega

theorem disjoint_of_le {a m b n : Nat} (h : a + m ≤ b) : Disjoint (Set.Ico a (a + m)) (Set.Ico b (b + n)) :=
  Set.Ico_disjoint_Ico.mpr (min_le_of_left_le (le_max_of_le_right h))

theorem disjoint_span (h : i ≠ j) :
    Disjoint (Set.Ico (s.start i) (s.start i + s.size)) (Set.Ico (s.start j) (s.start j + s.size)) := by
  rcases Nat.lt_or_gt_of_ne h with hlt | hgt
  · exact disjoint_of_le (end_le_start hlt)
  · exact (disjoint_of_le (end_le_start hgt)).symm

theorem dvd_start {a : Nat} (hbase : a ∣ s.base) (hstride : a ∣ s.stride) (i : Nat) : a ∣ s.start i :=
  Nat.dvd_add hbase (Nat.dvd_mul_left_of_dvd hstride i)

end Slots
