import Sparreal.Lib.Exec
import Mathlib.Order.Interval.Set.Basic

/-!
# Range collections

`RangeOp` and `VecOp` of the crate `ranges-ext`. A collection is the list of its ranges; the two
implementors of `VecOp`, `alloc::vec::Vec` (`vec.rs`) and `heapless::Vec` (`less.rs`), differ in when
they are full. `merge_add` edits the collection in place while it scans it, and what it has done stays
done when it returns an error: the state of an `Exec` survives the fault.
-/

namespace Sparreal.Ranges

/-- `core::ops::Range`: the points from `start` on and below `stop`. -/
structure Range (P : Type) where
  start : P
  stop : P
  deriving DecidableEq, Repr

namespace Range

variable {P : Type} [LinearOrder P]

def contains (r : Range P) (x : P) : Bool := decide (r.start ≤ x) && decide (x < r.stop)

def points (r : Range P) : Set P := Set.Ico r.start r.stop

def Nonempty (r : Range P) : Prop := r.start < r.stop

instance (r : Range P) : Decidable r.Nonempty := inferInstanceAs (Decidable (r.start < r.stop))

theorem contains_iff {r : Range P} {x : P} : r.contains x = true ↔ x ∈ r.points := by
  simp [contains, points]

end Range

/-- The trait `RangeOp` without its provided method `mergeable`, which no implementor overrides. -/
class RangeOp (T : Type) (K P : outParam Type) where
  range : T → Range P
  kind : T → K
  overwritable : T → T → Bool
  cloneWithRange : T → Range P → T

export RangeOp (range kind overwritable cloneWithRange)

/-- What `clone_with_range` is for: the same kind of range, somewhere else. -/
class LawfulRangeOp (T : Type) {K P : Type} [RangeOp T K P] [LinearOrder P] : Prop where
  range_cloneWithRange : ∀ (t : T) {r : Range P}, r.Nonempty → range (cloneWithRange t r) = r
  kind_cloneWithRange : ∀ (t : T) (r : Range P), kind (cloneWithRange t r) = kind t

export LawfulRangeOp (range_cloneWithRange kind_cloneWithRange)

inductive RangeError (T : Type) where
  | capacity
  | conflict (new existing : T)
  deriving DecidableEq, Repr

/-- How a call can fail to return `Ok`: an `Err`, a panic, or a loop that does not end. -/
inductive Fault (T : Type) where
  | err (e : RangeError T)
  | panic
  | diverge
  deriving DecidableEq, Repr

/-- The containers `VecOp` is implemented for. -/
inductive Container where
  | alloc
  | heapless (capacity : Nat)
  deriving DecidableEq, Repr

/-- A container with `len` elements takes no further one. -/
def Container.full : Container → Nat → Bool
  | .alloc, _ => false
  | .heapless capacity, len => decide (capacity ≤ len)

/-- The container can have `len` elements. -/
def Container.Fits : Container → Nat → Prop
  | .alloc, _ => True
  | .heapless capacity, len => len ≤ capacity

theorem Container.full_eq_false {c : Container} {len : Nat} :
    c.full len = false ↔ c.Fits (len + 1) := by
  cases c with
  | alloc => exact ⟨fun _ => trivial, fun _ => rfl⟩
  | heapless capacity => exact decide_eq_false_iff_not.trans Nat.not_le

theorem Container.Fits.mono {c : Container} {m n : Nat} (h : c.Fits n) (hmn : m ≤ n) :
    c.Fits m := by
  cases c with
  | alloc => trivial
  | heapless capacity => exact Nat.le_trans hmn h

/-- Code that edits a collection. -/
abbrev VecRun (T α : Type) : Type := Exec (Fault T) (List T) α

namespace VecOp

variable {T K P : Type} [RangeOp T K P] [DecidableEq K] [LinearOrder P]

/-- `RangeOp::mergeable`. -/
def mergeable (a b : T) : Bool := decide (kind a = kind b)

def push (c : Container) (item : T) : VecRun T Unit := fun l =>
  if c.full l.length then (.error (.err .capacity), l) else (.ok (), l ++ [item])

def len : VecRun T Nat := Exec.gets List.length

/-- `self.as_slice()[index]`. -/
def index (i : Nat) : VecRun T T := fun l =>
  match l[i]? with
  | none => (.error .panic, l)
  | some t => (.ok t, l)

def remove (i : Nat) : VecRun T T := fun l =>
  match l[i]? with
  | none => (.error .panic, l)
  | some t => (.ok t, l.eraseIdx i)

def insert (c : Container) (i : Nat) (item : T) : VecRun T Unit := fun l =>
  if l.length < i then (.error .panic, l)
  else if c.full l.length then (.error (.err .capacity), l)
  else (.ok (), l.insertIdx i item)

/-- `let _ = self.insert(index, item)`. -/
def insertIgnored (c : Container) (i : Nat) (item : T) : VecRun T Unit := fun l =>
  match insert c i item l with
  | (.error (.err _), l') => (.ok (), l')
  | result => result

/-! ### Merging -/

/-- Two ranges of a kind that overlap or touch. -/
def adjoins (current next : T) : Bool :=
  mergeable current next && decide ((range next).start ≤ (range current).stop) &&
    decide ((range current).start ≤ (range next).stop)

/-- The first pair of ranges to merge, as the two nested `for` loops find it. -/
def mergePair (l : List T) : Option (Nat × Nat) :=
  (List.range l.length).findSome? fun i =>
    (List.range' (i + 1) (l.length - (i + 1))).findSome? fun j =>
      match l[i]?, l[j]? with
      | some current, some next => if adjoins current next then some (i, j) else none
      | _, _ => none

/-- `current` grown to take in `next`. -/
def merged (current next : T) : T :=
  cloneWithRange current
    ⟨min (range current).start (range next).start, max (range current).stop (range next).stop⟩

/-- One round of the loop of `VecOp::merge_same_kind`. -/
def mergeRound (c : Container) : VecRun T (Option Unit) := do
  match ← Exec.gets mergePair with
  | none => pure (some ())
  | some (i, j) =>
    let current ← index i
    let next ← index j
    let _ ← remove j
    let _ ← remove i
    insertIgnored c i (merged current next)
    pure none

/-- `VecOp::merge_same_kind`. Every round that goes on has one range less to work on. -/
def mergeSameKind (c : Container) : VecRun T Unit := do
  let rounds ← len
  Exec.repeatUntil .diverge (mergeRound c) (rounds + 1)

/-! ### Insertion -/

/-- One round of the loop of `VecOp::merge_add`, at position `i`; it returns the next position. -/
def mergeAddStep (c : Container) (item : T) (i : Nat) : VecRun T Nat := do
  let existing ← index i
  let new := range item
  let old := range existing
  if new.start < old.stop ∧ old.start < new.stop then
    if !(overwritable existing item || mergeable existing item) then
      Exec.throw (.err (.conflict item existing))
    else if new.start ≤ old.start ∧ old.stop ≤ new.stop then
      let _ ← remove i
      pure i
    else if old.start < new.start ∧ new.stop < old.stop then
      let left := cloneWithRange existing ⟨old.start, new.start⟩
      let right := cloneWithRange existing ⟨new.stop, old.stop⟩
      let _ ← remove i
      insert c i left
      insert c (i + 1) right
      pure (i + 2)
    else if new.start ≤ old.start then
      let adjusted := cloneWithRange existing ⟨new.stop, old.stop⟩
      let _ ← remove i
      insert c i adjusted
      pure (i + 1)
    else
      let adjusted := cloneWithRange existing ⟨old.start, new.start⟩
      let _ ← remove i
      insert c i adjusted
      pure (i + 1)
  else
    pure (i + 1)

/-- `while i < self.len() { .. }` of `VecOp::merge_add`. -/
def mergeAddLoop (c : Container) (item : T) : Nat → Nat → VecRun T Unit
  | 0, i => do
    if i < (← len) then Exec.throw .diverge
  | fuel + 1, i => do
    if i < (← len) then
      let i ← mergeAddStep c item i
      mergeAddLoop c item fuel i

/-- `VecOp::merge_add`. Every round of the scan settles one of the ranges it began with. -/
def mergeAdd (c : Container) (item : T) : VecRun T Unit := do
  let rounds ← len
  mergeAddLoop c item rounds 0
  push c item
  mergeSameKind c

end VecOp

end Sparreal.Ranges
