import Sparreal.Lib.MixedRadix
import Sparreal.Paging.Def
import Mathlib.Algebra.BigOperators.Group.Finset.Basic

/-!
# Virtual addresses as indices

The indices of an address are its digits, with the sizes of the levels as weights: `virt_to_index` finds them,
`reconstruct_vaddr` puts them together again (`radix_iff`).
-/

namespace Sparreal.Paging.Layout

open Finset

variable (g : Layout)

/-- The indices of the levels, from the first on, and the offset in the page make up `v`. -/
structure Decomposes (v : Nat) (index : Nat → Nat) (offset : Nat) : Prop where
  sum_eq : ∑ i ∈ range g.ptLevel, index (i + 1) * g.levelSize (i + 1) + offset = v
  index_lt : ∀ i < g.ptLevel, index (i + 1) < 2 ^ g.levelIndexBits (i + 1)
  offset_lt : offset < g.pageSize

/-- `reconstruct_vaddr` folded from level `n` down. -/
def rebuild (index : Nat → Nat) (n base : Nat) : Except Fault Nat :=
  (List.range n).reverse.foldlM (fun base i => g.reconstructVaddr (index (i + 1)) (i + 1) base) base

structure Radix (v : Nat) (index : Nat → Nat) : Prop where
  virtToIndex : ∀ i < g.ptLevel, g.virtToIndex v (i + 1) = .ok (index (i + 1))
  decomposes : g.Decomposes v index (v % g.pageSize)
  unique : ∀ {index' offset}, g.Decomposes v index' offset →
    (∀ i < g.ptLevel, index' (i + 1) = index (i + 1)) ∧ offset = v % g.pageSize
  rebuild : g.rebuild index g.ptLevel 0 = .ok (v - v % g.pageSize)

/-- The bits of an address below the index of level `i + 1`. -/
def low (i : Nat) : Nat := g.pageShift + (g.levelBits.drop (g.ptLevel - i)).sum

variable {g} {i : Nat}

theorem low_zero : g.low 0 = g.pageShift := by
  simp [low, ptLevel]

theorem low_ptLevel : g.low g.ptLevel = g.ptValidBits := by
  simp [low, ptValidBits, Nat.add_comm]

theorem low_le : g.low i ≤ g.ptValidBits := by
  have hsum := List.sum_take_add_sum_drop g.levelBits (g.ptLevel - i)
  rw [low, ptValidBits]
  omega

theorem low_succ (hi : i < g.ptLevel) : g.low (i + 1) = g.low i + g.levelIndexBits (i + 1) := by
  have hlt : g.ptLevel - (i + 1) < g.levelBits.length := show _ < g.ptLevel by omega
  have hnext : g.ptLevel - (i + 1) + 1 = g.ptLevel - i := by omega
  rw [low, low, levelIndexBits, List.getD_eq_getElem _ _ hlt, List.drop_eq_getElem_cons hlt, List.sum_cons, hnext]
  omega

theorem indexShift_succ (hi : i < g.ptLevel) : g.indexShift (i + 1) = g.low i := by
  rw [indexShift, low, bitsBelow, show g.ptLevel - (i + 1) + 1 = g.ptLevel - i by omega]
  split_ifs with hone
  · obtain rfl : i = 0 := by omega
    simp [ptLevel]
  · rfl

theorem levelSize_succ (hi : i < g.ptLevel) (hlow : g.low i < 64) : g.levelSize (i + 1) = 2 ^ g.low i := by
  have hshift := indexShift_succ hi
  rw [levelSize, pageSize]
  unfold indexShift at hshift
  split_ifs at hshift ⊢ with hone
  · rw [hshift]
  · rw [Nat.shiftLeft_eq, ← pow_add, hshift, Nat.mod_eq_of_lt (Nat.pow_lt_pow_right (by norm_num) hlow)]

theorem rebuild_eq {index : Nat → Nat} {n base : Nat}
    (hfits : base + ∑ i ∈ range n, index (i + 1) * g.levelSize (i + 1) < usizeRange) :
    g.rebuild index n base = .ok (base + ∑ i ∈ range n, index (i + 1) * g.levelSize (i + 1)) := by
  induction n generalizing base with
  | zero => rfl
  | succ n ih =>
    rw [sum_range_succ] at hfits ⊢
    have hmul := mulUsize_eq_ok.mpr ⟨show index (n + 1) * g.levelSize (n + 1) < usizeRange by omega, rfl⟩
    have hadd := addUsize_eq_ok.mpr ⟨show base + index (n + 1) * g.levelSize (n + 1) < usizeRange by omega, rfl⟩
    have hstep : g.reconstructVaddr (index (n + 1)) (n + 1) base = .ok (base + index (n + 1) * g.levelSize (n + 1)) := by
      rw [reconstructVaddr, hmul]
      exact hadd
    rw [rebuild, List.range_succ, List.reverse_concat, List.foldlM_cons, hstep]
    refine (ih (by omega)).trans ?_
    congr 1
    omega

theorem Decomposes.succ_mul_le {v offset : Nat} {index : Nat → Nat} (h : g.Decomposes v index offset)
    (hi : i < g.ptLevel) : (index (i + 1) + 1) * 2 ^ g.low i ≤ 2 ^ g.low (i + 1) := by
  rw [low_succ hi, pow_add, Nat.mul_comm (2 ^ g.low i)]
  exact Nat.mul_le_mul_right _ (h.index_lt i hi)

theorem Decomposes.offset_lt_low {v offset : Nat} {index : Nat → Nat} (h : g.Decomposes v index offset) :
    offset < 2 ^ g.low 0 := by
  rw [low_zero]
  exact h.offset_lt

section

variable (hbits : g.ptValidBits ≤ 64) (hpos : ∀ bits ∈ g.levelBits, 0 < bits ∧ bits < 64)

include hbits hpos

theorem virtToIndex_succ (hi : i < g.ptLevel) (v : Nat) :
    g.low i < 64 ∧ g.virtToIndex v (i + 1) = .ok (v / 2 ^ g.low i % 2 ^ g.levelIndexBits (i + 1)) := by
  have hlt : g.ptLevel - (i + 1) < g.levelBits.length := show _ < g.ptLevel by omega
  have hwidth : 0 < g.levelIndexBits (i + 1) ∧ g.levelIndexBits (i + 1) < 64 := by
    rw [levelIndexBits, List.getD_eq_getElem _ _ hlt]
    exact hpos _ (List.getElem_mem hlt)
  have hlow : g.low i < 64 := by
    have hle := g.low_le (i := i + 1)
    rw [low_succ hi] at hle
    omega
  refine ⟨hlow, ?_⟩
  rw [virtToIndex, indexShift_succ hi, if_neg (by omega), if_neg (by omega), Nat.one_shiftLeft,
    Nat.and_two_pow_sub_one_eq_mod, Nat.shiftRight_eq_div_pow]

theorem sum_levelSize (index : Nat → Nat) :
    ∑ i ∈ range g.ptLevel, index i * g.levelSize (i + 1) = ∑ i ∈ range g.ptLevel, index i * 2 ^ g.low i := by
  refine sum_congr rfl fun i hi => ?_
  have hi := mem_range.mp hi
  rw [levelSize_succ hi (virtToIndex_succ hbits hpos hi 0).1]

theorem radix {v : Nat} (hv : v < 2 ^ g.ptValidBits) :
    g.Radix v fun level => v / 2 ^ g.low (level - 1) % 2 ^ g.levelIndexBits level := by
  have hsum := MixedRadix.sum_digits (w := fun i => 2 ^ g.low i) (n := g.ptLevel)
    (b := fun i => 2 ^ g.levelIndexBits (i + 1)) (fun i hi => by rw [low_succ hi, pow_add]) v
  rw [low_zero, low_ptLevel, Nat.mod_eq_of_lt hv] at hsum
  have hdecomposes : g.Decomposes v (fun level => v / 2 ^ g.low (level - 1) % 2 ^ g.levelIndexBits level)
      (v % g.pageSize) := by
    refine ⟨?_, fun i _ => Nat.mod_lt _ (Nat.two_pow_pos _), Nat.mod_lt _ (Nat.two_pow_pos _)⟩
    rw [sum_levelSize hbits hpos]
    exact hsum
  have heq := hdecomposes.sum_eq
  have hrange : 2 ^ g.ptValidBits ≤ usizeRange := Nat.pow_le_pow_right (by norm_num) hbits
  refine ⟨fun i hi => (virtToIndex_succ hbits hpos hi v).2, hdecomposes, fun h => ?_, ?_⟩
  · have hsame := h.sum_eq.trans heq.symm
    rw [sum_levelSize hbits hpos, sum_levelSize hbits hpos] at hsame
    exact MixedRadix.digits_unique (w := fun i => 2 ^ g.low i) (fun i hi => h.succ_mul_le hi) h.offset_lt_low
      (fun i hi => hdecomposes.succ_mul_le hi) hdecomposes.offset_lt_low hsame
  · rw [rebuild_eq (by omega)]
    congr 1
    omega

end

/-- Every address is made up of its indices, in one way only, and rebuilt from them, as long as no level has all the
bits of an address: the mask of `virt_to_index` overflows there. -/
theorem radix_iff (g : Layout) (hpos : ∀ bits ∈ g.levelBits, 0 < bits) (hbits : g.ptValidBits ≤ 64) :
    (∀ v < 2 ^ g.ptValidBits, ∃ index, g.Radix v index) ↔ ∀ bits ∈ g.levelBits, bits < 64 := by
  constructor
  · intro h bits hmem
    obtain ⟨k, hk, rfl⟩ := List.getElem_of_mem hmem
    obtain ⟨index, hradix⟩ := h 0 (Nat.two_pow_pos _)
    have hlt : g.ptLevel - (k + 1) < g.ptLevel := Nat.sub_lt (Nat.zero_lt_of_lt hk) (Nat.succ_pos k)
    have hlevel : g.ptLevel - (g.ptLevel - (k + 1) + 1) = k := by
      have hk : k < g.ptLevel := hk
      omega
    have hwidth : g.levelIndexBits (g.ptLevel - (k + 1) + 1) = g.levelBits[k] := by
      rw [levelIndexBits, hlevel, List.getD_eq_getElem _ _ hk]
    have hindex := hradix.virtToIndex _ hlt
    rw [Layout.virtToIndex, hwidth, if_neg (by omega)] at hindex
    split_ifs at hindex
    omega
  · exact fun hnarrow v hv => ⟨_, radix hbits (fun bits hmem => ⟨hpos bits hmem, hnarrow bits hmem⟩) hv⟩

theorem radix_iff_three_levels : ∃ index, (⟨12, [2, 9, 9]⟩ : Layout).Radix 0x40201234 index :=
  (radix_iff ⟨12, [2, 9, 9]⟩ (by decide) (by decide)).mpr (by decide) 0x40201234 (by decide)

/-- One level for addresses of 64 bits in pages of one byte. -/
theorem virtToIndex_all_bits :
    (⟨0, [64]⟩ : Layout).ptValidBits ≤ 64 ∧ (⟨0, [64]⟩ : Layout).virtToIndex 0 1 = .error .panic := by
  decide

end Sparreal.Paging.Layout
