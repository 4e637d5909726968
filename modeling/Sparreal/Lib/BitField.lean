import Mathlib.Data.Nat.Bitwise
import Mathlib.Tactic.Common

/-!
# Bit fields of a register

A `BitField` is a run of bits of a register word. `val` is the word with a value in the field and zeros
elsewhere, fields are put together with `|||`, and `read` takes the value out again: `read_or`,
`read_orIf`, `read_val` and `read_val_of_apart` take a read through everything a word is put together from,
and so do the laws of `isSet`.
`orIf` sets bits under a condition; `orIf_and` and `orIf_and_self` say what a mask sees of it.
-/

/-- `width` bits from bit `offset` on. -/
structure BitField where
  offset : Nat
  width : Nat

namespace BitField

variable (f g : BitField)

def mask : Nat := 2 ^ f.width - 1

/-- The word with `x` in the field. -/
def val (x : Nat) : Nat := (x &&& f.mask) <<< f.offset

def set : Nat := f.val f.mask

def read (word : Nat) : Nat := (word >>> f.offset) &&& f.mask

def isSet (word : Nat) : Bool := f.read word != 0

theorem read_val (x : Nat) : f.read (f.val x) = x % 2 ^ f.width := by
  rw [read, val, mask, Nat.shiftLeft_shiftRight, Nat.and_assoc, Nat.and_self,
    Nat.and_two_pow_sub_one_eq_mod]

variable {f g}

/-! ### Bits set under a condition -/

/-- `bits |= mask` under a condition. -/
def orIf (cond : Bool) (mask bits : Nat) : Nat := if cond then bits ||| mask else bits

theorem orIf_and {mask probe : Nat} (h : mask &&& probe = 0) (cond : Bool) (bits : Nat) :
    orIf cond mask bits &&& probe = bits &&& probe := by
  cases cond with
  | false => rfl
  | true =>
    show (bits ||| mask) &&& probe = bits &&& probe
    rw [Nat.and_or_distrib_right, h, Nat.or_zero]

theorem orIf_and_self (cond : Bool) (mask bits : Nat) :
    orIf cond mask bits &&& mask = if cond then mask else bits &&& mask := by
  cases cond with
  | false => rfl
  | true =>
    show (bits ||| mask) &&& mask = mask
    refine Nat.eq_of_testBit_eq fun i => ?_
    rw [Nat.testBit_and, Nat.testBit_or]
    cases bits.testBit i <;> cases mask.testBit i <;> rfl

theorem orIf_lt {cond : Bool} {mask bits n : Nat} (hmask : mask < 2 ^ n) (hbits : bits < 2 ^ n) :
    orIf cond mask bits < 2 ^ n := by
  unfold orIf
  split
  · exact Nat.or_lt_two_pow hbits hmask
  · exact hbits

theorem shiftRight_mod_shiftLeft {n width x : Nat} (haligned : 2 ^ n ∣ x) (hlt : x < 2 ^ n * 2 ^ width) :
    ((x >>> n) % 2 ^ width) <<< n = x := by
  rw [Nat.shiftRight_eq_div_pow, Nat.shiftLeft_eq, Nat.mod_eq_of_lt (Nat.div_lt_of_lt_mul hlt),
    Nat.div_mul_cancel haligned]

theorem shiftLeft_and_of_lt {n mask : Nat} (h : mask < 2 ^ n) (x : Nat) : x <<< n &&& mask = 0 := by
  apply Nat.eq_of_testBit_eq
  intro i
  rw [Nat.testBit_and, Nat.testBit_shiftLeft, Nat.zero_testBit]
  by_cases hi : n ≤ i
  · have hzero : mask.testBit i = false :=
      Nat.testBit_lt_two_pow (Nat.lt_of_lt_of_le h (Nat.pow_le_pow_right (by omega) hi))
    rw [hzero, Bool.and_false]
  · simp [hi]

/-! ### Reading a word that was put together -/

def Apart (f g : BitField) : Prop := f.offset + f.width ≤ g.offset ∨ g.offset + g.width ≤ f.offset

instance (f g : BitField) : Decidable (f.Apart g) := inferInstanceAs (Decidable (_ ∨ _))

theorem read_val_of_apart (h : f.Apart g) (x : Nat) : f.read (g.val x) = 0 := by
  refine Nat.eq_of_testBit_eq fun i => ?_
  simp only [read, val, mask, Nat.testBit_and, Nat.testBit_shiftRight, Nat.testBit_shiftLeft,
    Nat.testBit_two_pow_sub_one, Nat.zero_testBit]
  by_cases hi : i < f.width
  · rcases h with h | h
    · rw [decide_eq_false (show ¬ f.offset + i ≥ g.offset by omega), Bool.false_and, Bool.false_and]
    · rw [decide_eq_false (show ¬ f.offset + i - g.offset < g.width by omega)]
      simp
  · rw [decide_eq_false hi, Bool.and_false]

theorem read_set_of_apart (h : f.Apart g) : f.read g.set = 0 := read_val_of_apart h g.mask

theorem read_or (a b : Nat) : f.read (a ||| b) = f.read a ||| f.read b := by
  unfold read
  rw [Nat.shiftRight_or_distrib, Nat.and_or_distrib_right]

theorem read_orIf (cond : Bool) (mask bits : Nat) :
    f.read (orIf cond mask bits) = f.read bits ||| if cond then f.read mask else 0 := by
  unfold orIf
  cases cond with
  | false => simp
  | true => simp [read_or]

theorem isSet_or (a b : Nat) : f.isSet (a ||| b) = (f.isSet a || f.isSet b) := by
  unfold isSet
  rw [read_or, Bool.eq_iff_iff]
  simp [Nat.or_eq_zero_iff, imp_iff_not_or]

theorem isSet_orIf (cond : Bool) (mask bits : Nat) :
    f.isSet (orIf cond mask bits) = (f.isSet bits || cond && f.isSet mask) := by
  unfold orIf
  cases cond with
  | false => simp
  | true => simp [isSet_or]

theorem isSet_set (h : 0 < f.width) : f.isSet f.set = true := by
  have hmask : f.mask < 2 ^ f.width := Nat.sub_lt (Nat.two_pow_pos _) Nat.one_pos
  have hpos : 1 < 2 ^ f.width := Nat.one_lt_two_pow (by omega)
  unfold isSet set
  rw [read_val, Nat.mod_eq_of_lt hmask]
  simp only [mask, bne_iff_ne, ne_eq]
  omega

theorem isSet_val_of_apart (h : f.Apart g) (x : Nat) : f.isSet (g.val x) = false := by
  unfold isSet
  rw [read_val_of_apart h]
  simp

theorem isSet_set_of_apart (h : f.Apart g) : f.isSet g.set = false := isSet_val_of_apart h g.mask

end BitField
