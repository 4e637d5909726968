import Mathlib.Logic.Function.Basic
import Mathlib.Tactic.Common

/-!
# Rings with a phase bit

A ring of slots that one side fills and the other empties, both going round at their own pace. The filling side
marks each slot with its phase, which it turns over at the end of the ring; the other side takes a slot as
filled when the mark differs from the phase of its own. Nothing else passes between them.
-/

namespace PhaseRing

def nextIndex (len i : Nat) : Nat := if len ≤ i + 1 then 0 else i + 1

theorem nextIndex_lt {len i : Nat} (hlen : 0 < len) : nextIndex len i < len := by
  rw [nextIndex]
  split_ifs with h
  · exact hlen
  · exact Nat.lt_of_not_le h

/-- Going round slot by slot is counting modulo the length. -/
theorem nextIndex_mod {len : Nat} (hlen : 0 < len) (k : Nat) : nextIndex len (k % len) = (k + 1) % len := by
  have hlt := Nat.mod_lt k hlen
  rw [← Nat.mod_add_mod, nextIndex]
  split_ifs with h
  · rw [show k % len + 1 = len by omega, Nat.mod_self]
  · exact (Nat.mod_eq_of_lt (Nat.lt_of_not_le h)).symm

theorem mod_ne_mod {len n k : Nat} (hlt : n < k) (hround : k < n + len) : n % len ≠ k % len := by
  intro h
  have hdvd : len ∣ k - n := Nat.dvd_of_mod_eq_zero (Nat.sub_mod_eq_zero_of_mod_eq h.symm)
  have hle := Nat.le_of_dvd (by omega) hdvd
  omega

structure Cursor where
  index : Nat
  phase : Bool
  deriving DecidableEq, Repr

namespace Cursor

def next (len : Nat) (c : Cursor) : Cursor :=
  if len ≤ c.index + 1 then ⟨0, !c.phase⟩ else ⟨c.index + 1, c.phase⟩

/-- The same place on the other side, which marks with the phase this side waits for. -/
def across (c : Cursor) : Cursor := ⟨c.index, !c.phase⟩

variable {len : Nat} {c : Cursor}

theorem next_index : (c.next len).index = nextIndex len c.index := by
  rw [next, nextIndex]
  split_ifs <;> rfl

theorem across_next : (c.next len).across = c.across.next len := by
  by_cases h : len ≤ c.index + 1
  · rw [next, if_pos h, next, if_pos (show len ≤ c.across.index + 1 from h)]
    rfl
  · rw [next, if_neg h, next, if_neg (show ¬ len ≤ c.across.index + 1 from h)]
    rfl

end Cursor

/-- The marks as the emptying side has left them: what it passed in this round is marked, the rest is as the
last round left it. -/
def Passed (len : Nat) (marks : Nat → Bool) (c : Cursor) : Prop :=
  ∀ i < len, marks i = if i < c.index then !c.phase else c.phase

variable {len : Nat} {marks : Nat → Bool} {c : Cursor}

theorem Passed.not_filled (h : Passed len marks c) (hc : c.index < len) : marks c.index = c.phase := by
  rw [h c.index hc, if_neg (Nat.lt_irrefl _)]

theorem Passed.next (h : Passed len marks c) (hc : c.index < len) :
    Passed len (Function.update marks c.index (!c.phase)) (c.next len) := by
  intro i hi
  have hmark : Function.update marks c.index (!c.phase) i = if i ≤ c.index then !c.phase else c.phase := by
    rw [Function.update_apply, h i hi]
    split_ifs <;> first | rfl | omega
  rw [hmark]
  by_cases hlast : len ≤ c.index + 1
  · rw [Cursor.next, if_pos hlast, if_pos (by omega), if_neg (Nat.not_lt_zero i)]
  · rw [Cursor.next, if_neg hlast]
    exact if_congr Nat.lt_succ_iff.symm rfl rfl

/-! ### Counting

The cursor of a side is given by how often it moved. -/

/-- The cursor after so many moves from the start of a ring of zeros. -/
def Cursor.after (len k : Nat) : Cursor := ⟨k % len, decide (k / len % 2 = 1)⟩

theorem Cursor.next_after (hlen : 0 < len) (k : Nat) : (after len k).next len = after len (k + 1) := by
  have hmod := nextIndex_mod hlen k
  have hdiv : (k + 1) / len = k / len + if (k + 1) % len = 0 then 1 else 0 := by
    rw [Nat.succ_div]
    exact congrArg _ (if_congr Nat.dvd_iff_mod_eq_zero rfl rfl)
  rw [nextIndex] at hmod
  by_cases hwrap : len ≤ k % len + 1
  · rw [if_pos hwrap] at hmod
    rw [if_pos hmod.symm] at hdiv
    rw [next, if_pos (show len ≤ (after len k).index + 1 from hwrap), after, after, ← hmod, hdiv, ← decide_not]
    congr 2
    exact propext (by omega)
  · rw [if_neg hwrap] at hmod
    rw [if_neg (hmod ▸ Nat.succ_ne_zero _)] at hdiv
    rw [next, if_neg (show ¬ len ≤ (after len k).index + 1 from hwrap), after, after, ← hmod, hdiv]
    rfl

/-- Of two sides less than a round apart, the one behind finds its slot filled unless the two are level. -/
theorem Passed.filled_iff {taken posted : Nat} (h : Passed len marks (.after len posted)) (hlen : 0 < len)
    (hle : taken ≤ posted) (hround : posted ≤ taken + len) :
    marks (taken % len) ≠ (Cursor.after len taken).phase ↔ taken < posted := by
  have hlt := Nat.mod_lt taken hlen
  have hlt' := Nat.mod_lt posted hlen
  have htaken := Nat.div_add_mod taken len
  have hposted := Nat.div_add_mod posted len
  -- both are in the same round, or the one ahead is in the next
  have hrounds : posted / len = taken / len ∨ posted / len = taken / len + 1 := by
    have hmono : taken / len ≤ posted / len := Nat.div_le_div_right hle
    have hnext : posted / len ≤ taken / len + 1 := by
      rw [← Nat.add_div_right _ hlen]
      exact Nat.div_le_div_right hround
    omega
  have hmark : marks (taken % len) = if taken % len < posted % len then !decide (posted / len % 2 = 1)
      else decide (posted / len % 2 = 1) := h (taken % len) hlt
  show marks (taken % len) ≠ decide (taken / len % 2 = 1) ↔ taken < posted
  rw [hmark]
  rcases hrounds with hsame | hnext
  · rw [hsame] at hposted ⊢
    generalize len * (taken / len) = start at htaken hposted
    by_cases hless : taken % len < posted % len
    · rw [if_pos hless]
      exact iff_of_true (by simp) (by omega)
    · rw [if_neg hless]
      exact iff_of_false (fun hne => hne rfl) (by omega)
  · rw [hnext, Nat.mul_succ] at hposted
    generalize len * (taken / len) = start at htaken hposted
    rw [if_neg (by omega), hnext, Ne, decide_eq_decide]
    exact iff_of_true (by omega) (by omega)

end PhaseRing
