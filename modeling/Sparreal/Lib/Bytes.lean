import Mathlib.Data.Nat.Digits.Lemmas

/-!
# Numbers in a buffer

`Bytes.field` is the little-endian number in a few bytes of a buffer. A wide field is made of two narrower ones
(`field_add`), and a field can be read in any front part of the buffer that has it (`field_take`).
-/

namespace Bytes

/-- The number with these little-endian bytes. -/
def le (l : List UInt8) : Nat := Nat.ofDigits 256 (l.map UInt8.toNat)

/-- The number in `width` bytes from `offset` on. -/
def field (l : List UInt8) (offset width : Nat) : Nat := le ((l.drop offset).take width)

theorem le_lt (l : List UInt8) : le l < 256 ^ l.length := by
  have hdigits : ∀ d ∈ l.map UInt8.toNat, d < 256 := by
    intro d hd
    obtain ⟨b, -, rfl⟩ := List.mem_map.mp hd
    exact b.toNat_lt
  have hlt := Nat.ofDigits_lt_base_pow_length (by decide) hdigits
  rwa [List.length_map] at hlt

theorem le_append (l m : List UInt8) : le (l ++ m) = le l + 256 ^ l.length * le m := by
  rw [le, List.map_append, Nat.ofDigits_append, List.length_map, le, le]

theorem field_lt (l : List UInt8) (offset width : Nat) : field l offset width < 256 ^ width := by
  refine (le_lt _).trans_le (Nat.pow_le_pow_right (by decide) ?_)
  rw [List.length_take]
  exact Nat.min_le_left _ _

theorem field_take {l : List UInt8} {offset width n : Nat} (h : offset + width ≤ n) :
    field (l.take n) offset width = field l offset width := by
  rw [field, List.drop_take, List.take_take, Nat.min_eq_left (by omega), field]

theorem field_add {l : List UInt8} {offset width : Nat} (h : offset + width ≤ l.length) (width' : Nat) :
    field l offset (width + width') = field l offset width + 256 ^ width * field l (offset + width) width' := by
  have hlength : ((l.drop offset).take width).length = width := by
    rw [List.length_take, List.length_drop]
    omega
  rw [field, List.take_add, le_append, hlength, List.drop_drop, field, field]

end Bytes
