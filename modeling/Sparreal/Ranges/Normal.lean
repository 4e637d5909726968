import Sparreal.Ranges.Descriptor
import Sparreal.Ranges.Merge

/-!
# The normal form of a range collection

A collection is normal if its ranges are not empty and no two of a kind overlap or touch. `merge_same_kind` brings every
collection of non-empty ranges into a normal form with the same points and leaves normal collections alone
(`mergeSameKind_normal`).
-/

namespace Sparreal.Ranges

open VecOp

variable {T K P : Type} [RangeOp T K P] [LinearOrder P]

def Apart (a b : T) : Prop := kind a = kind b → (range a).stop < (range b).start ∨ (range b).stop < (range a).start

/-- No range is empty, and no two of a kind overlap or touch. -/
structure Normal (l : List T) : Prop where
  nonempty : ∀ t ∈ l, (range t).Nonempty
  apart : l.Pairwise Apart

/-! ### Merging -/

variable [DecidableEq K] {l : List T}

theorem apart_of_adjoins {a b : T} (h : adjoins a b = false) : Apart a b := by
  intro hkind
  by_contra hnot
  obtain ⟨hle, hle'⟩ := not_or.mp hnot
  have hadjoins : adjoins a b = true := adjoins_iff.mpr ⟨hkind, not_lt.mp hle, not_lt.mp hle'⟩
  rw [h] at hadjoins
  exact absurd hadjoins Bool.false_ne_true

theorem mergeSameKind_of_none (c : Container) (h : mergePair l = none) : mergeSameKind c l = (.ok (), l) := by
  have hlen : (len : VecRun T Nat) l = (.ok l.length, l) := rfl
  have hround : mergeRound c l = (.ok (some ()), l) := by simp [mergeRound, Exec.bind_apply, h]
  rw [mergeSameKind, Exec.bind_apply_ok hlen, Exec.repeatUntil, Exec.bind_apply_ok hround]
  rfl

variable [LawfulRangeOp T]

/-- `merge_same_kind` returns for every collection of non-empty ranges. Every kind has the points it had, no two ranges
of a kind overlap or touch any more, and a second call changes nothing. -/
theorem mergeSameKind_normal (c : Container) (l : List T) (hfits : c.Fits l.length)
    (hne : ∀ t ∈ l, (range t).Nonempty) :
    ∃ l', mergeSameKind c l = (.ok (), l') ∧ (∀ k x, Covers l' k x ↔ Covers l k x) ∧ Normal l' ∧
      mergeSameKind c l' = (.ok (), l') := by
  have hkeeps : ∀ l₁ next : List T, (∀ t ∈ l₁, (range t).Nonempty) ∧ (∀ k x, Covers l₁ k x ↔ Covers l k x) →
      MergesTo l₁ next → (∀ t ∈ next, (range t).Nonempty) ∧ ∀ k x, Covers next k x ↔ Covers l k x := by
    rintro l₁ next ⟨hne₁, hcovers⟩ hmerge
    exact ⟨hmerge.nonempty hne₁, fun k x => (hmerge.covers hne₁ k x).trans (hcovers k x)⟩
  obtain ⟨l', hrun, ⟨hne', hcovers⟩, hpair⟩ := mergeSameKind_returns hkeeps hfits ⟨hne, fun _ _ => Iff.rfl⟩
  exact ⟨l', hrun, hcovers, ⟨hne', (pairwise_of_mergePair hpair).imp apart_of_adjoins⟩,
    mergeSameKind_of_none c hpair⟩

/-- Five ranges of two kinds, two of which only touch: three are left. -/
theorem mergeSameKind_normal_mixed :
    ∃ l', mergeSameKind (.heapless 5) ([⟨0, 10, .ram⟩, ⟨10, 10, .ram⟩, ⟨5, 10, .mmio⟩, ⟨30, 10, .ram⟩,
        ⟨15, 10, .mmio⟩] : List MemoryDescriptor) = (.ok (), l') ∧
      l' = [⟨0, 20, .ram⟩, ⟨5, 20, .mmio⟩, ⟨30, 10, .ram⟩] ∧ Normal l' ∧
      mergeSameKind (.heapless 5) l' = (.ok (), l') := by
  have hrun : mergeSameKind (.heapless 5) ([⟨0, 10, .ram⟩, ⟨10, 10, .ram⟩, ⟨5, 10, .mmio⟩, ⟨30, 10, .ram⟩,
      ⟨15, 10, .mmio⟩] : List MemoryDescriptor) = (.ok (), [⟨0, 20, .ram⟩, ⟨5, 20, .mmio⟩, ⟨30, 10, .ram⟩]) := by
    decide +kernel
  obtain ⟨l', hrun', -, hnormal, hagain⟩ := mergeSameKind_normal (.heapless 5) ([⟨0, 10, .ram⟩, ⟨10, 10, .ram⟩,
    ⟨5, 10, .mmio⟩, ⟨30, 10, .ram⟩, ⟨15, 10, .mmio⟩] : List MemoryDescriptor) (show 5 ≤ 5 by decide) (by decide)
  obtain ⟨-, rfl⟩ := Prod.mk.inj (hrun.symm.trans hrun')
  exact ⟨_, hrun, rfl, hnormal, hagain⟩

end Sparreal.Ranges
