import Mathlib.Logic.Function.Basic
import Mathlib.Data.List.Basic
import Mathlib.Tactic.Common

/-!
# Memory behind a write-back cache

The processor loads and stores through a cache, a device reads and writes the memory behind it. What the
processor sees at an address (`view`) is the cached value if there is one. Stores stay in the cache until a
`flush` of the address; an `invalidate` drops what is cached. Each operation has one lemma for the view and
one for the memory.
-/

/-- A memory of values of type `β` and the cache in front of it. -/
structure CachedMemory (β : Type) where
  cache : Nat → Option β
  memory : Nat → β

namespace CachedMemory

variable {β : Type}

/-- What the processor reads at an address. -/
def view (s : CachedMemory β) (a : Nat) : β := (s.cache a).getD (s.memory a)

/-- What the processor reads in `n` addresses in a row. -/
def read (s : CachedMemory β) (a n : Nat) : List β := (List.range n).map fun i => s.view (a + i)

/-- A load brings the value into the cache. -/
def load (s : CachedMemory β) (a : Nat) : CachedMemory β :=
  { s with cache := Function.update s.cache a (some (s.view a)) }

def store (s : CachedMemory β) (a : Nat) (b : β) : CachedMemory β :=
  { s with cache := Function.update s.cache a (some b) }

/-- Stores in a row. -/
def write : Nat → List β → CachedMemory β → CachedMemory β
  | _, [], s => s
  | a, b :: bs, s => write (a + 1) bs (s.store a b)

/-- The first `n` values at `src` are copied to `dst`, one after the other. -/
def copy (dst src : Nat) : Nat → CachedMemory β → CachedMemory β
  | 0, s => s
  | n + 1, s =>
    let s := copy dst src n s
    (s.load (src + n)).store (dst + n) (s.view (src + n))

/-- Write what is cached of `n` addresses back to the memory. -/
def flush (a n : Nat) (s : CachedMemory β) : CachedMemory β :=
  { s with memory := fun x => if a ≤ x ∧ x < a + n then s.view x else s.memory x }

/-- Drop what is cached of `n` addresses. -/
def invalidate (a n : Nat) (s : CachedMemory β) : CachedMemory β :=
  { s with cache := fun x => if a ≤ x ∧ x < a + n then none else s.cache x }

/-- A device writes values in a row, at its own addresses; `bus` gives the address in the memory. -/
def deviceWrite (bus : Nat → Nat) : Nat → List β → CachedMemory β → CachedMemory β
  | _, [], s => s
  | a, b :: bs, s => deviceWrite bus (a + 1) bs { s with memory := Function.update s.memory (bus a) b }

/-! ### Loads and stores -/

variable {s : CachedMemory β} {a x n : Nat}

@[simp]
theorem view_load : (s.load a).view x = s.view x := by
  by_cases h : x = a
  · subst h
    simp [view, load]
  · simp [view, load, Function.update_of_ne h]

variable {b : β} {bs : List β}

theorem view_store : (s.store a b).view x = if x = a then b else s.view x := by
  split_ifs with h
  · simp [view, store, h]
  · simp [view, store, Function.update_of_ne h]

@[simp]
theorem memory_write : (write a bs s).memory = s.memory := by
  induction bs generalizing a s with
  | nil => rfl
  | cons b bs ih => exact ih

theorem view_write_outside (h : x < a ∨ a + bs.length ≤ x) :
    (write a bs s).view x = s.view x := by
  induction bs generalizing a s with
  | nil => rfl
  | cons b bs ih =>
    rw [List.length_cons] at h
    rw [write, ih (by omega), view_store, if_neg (by omega)]

theorem view_write {i : Nat} (h : bs[i]? = some b) : (write a bs s).view (a + i) = b := by
  induction bs generalizing a s i with
  | nil => cases h
  | cons b' bs ih =>
    rw [write]
    cases i with
    | zero =>
      rw [view_write_outside (by omega), view_store, if_pos (by omega)]
      exact Option.some.inj h
    | succ i =>
      rw [show a + (i + 1) = a + 1 + i by omega]
      exact ih h

/-! ### Copies -/

@[simp]
theorem memory_copy {dst src : Nat} : (copy dst src n s).memory = s.memory := by
  induction n with
  | zero => rfl
  | succ n ih => exact ih

theorem view_copy {dst src : Nat} (h : dst + n ≤ src ∨ src + n ≤ dst) :
    (copy dst src n s).view x = if dst ≤ x ∧ x < dst + n then s.view (src + (x - dst)) else s.view x := by
  induction n generalizing x with
  | zero => rw [copy, if_neg (by omega)]
  | succ n ih =>
    rw [copy, view_store, view_load]
    split_ifs with hx hin hin
    · -- the last value: its source has not been written to
      rw [ih (by omega), if_neg (by omega), show src + (x - dst) = src + n by omega]
    · omega
    · rw [ih (by omega), if_pos (by omega)]
    · rw [ih (by omega), if_neg (by omega)]

/-! ### Write-back, invalidation and the device -/

theorem memory_flush : (s.flush a n).memory x = if a ≤ x ∧ x < a + n then s.view x else s.memory x := rfl

theorem view_invalidate :
    (s.invalidate a n).view x = if a ≤ x ∧ x < a + n then s.memory x else s.view x := by
  rw [view, invalidate]
  simp only
  split_ifs <;> rfl

@[simp]
theorem memory_invalidate : (s.invalidate a n).memory = s.memory := rfl

theorem memory_deviceWrite_outside {bus : Nat → Nat} (h : ∀ i < bs.length, bus (a + i) ≠ x) :
    (deviceWrite bus a bs s).memory x = s.memory x := by
  induction bs generalizing a s with
  | nil => rfl
  | cons b bs ih =>
    have hrest : ∀ i < bs.length, bus (a + 1 + i) ≠ x := by
      intro i hi
      rw [show a + 1 + i = a + (i + 1) by omega]
      exact h (i + 1) (by simpa using hi)
    rw [deviceWrite, ih hrest]
    exact Function.update_of_ne (h 0 (by simp)).symm _ _

theorem memory_deviceWrite {bus : Nat → Nat} {y i : Nat} (hbus : ∀ i < bs.length, bus (a + i) = y + i)
    (h : bs[i]? = some b) :
    (deviceWrite bus a bs s).memory (y + i) = b := by
  induction bs generalizing a s y i with
  | nil => cases h
  | cons b' bs ih =>
    have hbus' : ∀ i < bs.length, bus (a + 1 + i) = y + 1 + i := by
      intro i hi
      rw [show a + 1 + i = a + (i + 1) by omega, hbus (i + 1) (by simpa using hi)]
      omega
    rw [deviceWrite]
    cases i with
    | zero =>
      have hfirst : bus a = y := hbus 0 (by simp)
      rw [memory_deviceWrite_outside fun i hi => by rw [hbus' i hi]; omega, Nat.add_zero, ← hfirst,
        ← Option.some.inj h]
      exact Function.update_self ..
    | succ i =>
      rw [show y + (i + 1) = y + 1 + i by omega]
      exact ih hbus' h

end CachedMemory
