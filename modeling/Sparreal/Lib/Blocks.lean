import Mathlib.Data.List.Basic
import Mathlib.Tactic.Common

/-!
# A string of bytes in blocks

`block size bytes b` is the `b`-th block of a string cut into blocks of `size`, and `splice` puts data over a part of
the string. Data put over a whole block is that block afterwards, and no other block changes.
-/

namespace Blocks

variable {α : Type}

/-- Block `b` of a string in blocks of `size`. -/
def block (size : Nat) (bytes : List α) (b : Nat) : List α := (bytes.drop (b * size)).take size

/-- The string with `data` over what was at `offset`. -/
def splice (bytes : List α) (offset : Nat) (data : List α) : List α :=
  bytes.take offset ++ data ++ bytes.drop (offset + data.length)

variable {size count b offset : Nat} {bytes data : List α}

theorem length_splice (h : offset + data.length ≤ bytes.length) :
    (splice bytes offset data).length = bytes.length := by
  unfold splice
  simp only [List.length_append, List.length_take, List.length_drop]
  omega

theorem end_le (size : Nat) (hb : b < count) : b * size + size ≤ count * size := by
  rw [← Nat.succ_mul]
  exact Nat.mul_le_mul_right size hb

theorem length_block (hlength : bytes.length = count * size) (hb : b < count) :
    (block size bytes b).length = size := by
  have hend := end_le size hb
  unfold block
  simp only [List.length_take, List.length_drop]
  omega

theorem getElem?_block (size : Nat) (bytes : List α) (b i : Nat) :
    (block size bytes b)[i]? = if i < size then bytes[b * size + i]? else none := by
  unfold block
  rw [List.getElem?_take, List.getElem?_drop]

theorem getElem?_splice (h : offset + data.length ≤ bytes.length) (j : Nat) :
    (splice bytes offset data)[j]? =
      if offset ≤ j ∧ j < offset + data.length then data[j - offset]? else bytes[j]? := by
  unfold splice
  rw [List.append_assoc]
  by_cases hlow : j < offset
  · rw [List.getElem?_append_left (by rw [List.length_take]; omega), List.getElem?_take_of_lt hlow,
      if_neg (by omega)]
  · rw [List.getElem?_append_right (by rw [List.length_take]; omega), List.length_take,
      Nat.min_eq_left (by omega)]
    by_cases hin : j < offset + data.length
    · rw [List.getElem?_append_left (by omega), if_pos (by omega)]
    · rw [List.getElem?_append_right (by omega), List.getElem?_drop, if_neg (by omega)]
      congr 1
      omega

theorem block_splice_self (hlength : bytes.length = count * size) (hb : b < count) (hdata : data.length = size) :
    block size (splice bytes (b * size) data) b = data := by
  have hend := end_le size hb
  apply List.ext_getElem?
  intro i
  rw [getElem?_block]
  split
  · rw [getElem?_splice (by omega), if_pos (by omega), Nat.add_sub_cancel_left]
  · rw [List.getElem?_eq_none (by omega)]

theorem block_splice_of_ne {b' : Nat} (hlength : bytes.length = count * size) (hb : b < count)
    (hdata : data.length = size) (hne : b' ≠ b) :
    block size (splice bytes (b * size) data) b' = block size bytes b' := by
  have hend := end_le size hb
  apply List.ext_getElem?
  intro i
  rw [getElem?_block, getElem?_block]
  split
  · rw [getElem?_splice (by omega), if_neg]
    rcases Nat.lt_or_gt_of_ne hne with hlt | hlt
    · have := end_le size hlt
      omega
    · have := end_le size hlt
      omega
  · rfl

/-! ### A string put together block by block -/

theorem length_flatMap {f : Nat → List α} (hf : ∀ i, (f i).length = size) (count : Nat) :
    ((List.range count).flatMap f).length = count * size := by
  induction count with
  | zero => simp
  | succ count ih => simp [List.range_succ, List.flatMap_append, ih, hf, Nat.succ_mul]

theorem block_flatMap {f : Nat → List α} (hf : ∀ i, (f i).length = size) (hb : b < count) :
    block size ((List.range count).flatMap f) b = f b := by
  induction count with
  | zero => omega
  | succ count ih =>
    have hlength := length_flatMap hf count
    have hrange : (List.range (count + 1)).flatMap f = (List.range count).flatMap f ++ f count := by
      simp [List.range_succ, List.flatMap_append]
    unfold block at ih ⊢
    rw [hrange]
    rcases Nat.lt_or_eq_of_le (Nat.le_of_lt_succ hb) with hlt | rfl
    · have hend := end_le size hlt
      rw [List.drop_append_of_le_length (by omega), List.take_append_of_le_length (by rw [List.length_drop]; omega),
        ih hlt]
    · rw [← hlength, List.drop_left, ← hf b, List.take_length]

end Blocks
