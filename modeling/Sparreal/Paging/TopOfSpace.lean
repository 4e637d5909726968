import Sparreal.Paging.Undo

/-!
# Unmapping at the top of the address space

`map_range_recursive` computes the end of the entry an address is in with saturating operations,
`unmap_range_recursive` with plain ones. The two differ at the last entry of the address space: its end is `2 ^ 64`.
Below the root a call stays inside one entry of the level above, so nothing overflows there
(`unmapRangeRecursive_returns`); the loop over the root overflows as soon as it comes to the last entry and finds it
valid, whether it is a huge page or a table. `unmapsInRange_last` says so of the table before the call: a call only
makes entries invalid, so an entry that is invalid then stays so.

An iteration the loop comes to is described by `Exec.Iterates`; `Visits` are the addresses the recursion looks at, on
every level.
-/

namespace Sparreal.Paging

variable {P : Type} [PageTableEntry P] {T : TableMeta P}

namespace Frame

/-- The call one level below. -/
def below (T : TableMeta P) : Nat → PhysAddr → UnmapRecursiveConfig → Run P Bool
  | 0 => fun _ _ => Exec.throw .panic
  | level + 1 => unmapRangeRecursive T level

theorem unmapRangeRecursive_eq (T : TableMeta P) (level : Nat) (frame : PhysAddr) (c : UnmapRecursiveConfig) :
    unmapRangeRecursive T level frame c =
      (unmapLoop T (below T level) level frame c (c.endVaddr - c.startVaddr) (c.startVaddr, true) >>=
        fun cursor => reclaimable T frame cursor.2) := by
  cases level <;> rfl

/-- The loop of a call comes to `cursor` in the machine `m'`. -/
def ComesTo (T : TableMeta P) (level : Nat) (frame : PhysAddr) (c : UnmapRecursiveConfig) (m : Machine P)
    (cursor : Nat × Bool) (m' : Machine P) : Prop :=
  Relation.ReflTransGen
    (Exec.Iterates (fun cursor => decide (cursor.1 < c.endVaddr)) (unmapStep T (below T level) level frame c))
    ((c.startVaddr, true), m) (cursor, m')

/-- The addresses the recursion looks at. -/
inductive Visits (T : TableMeta P) :
    Nat → PhysAddr → UnmapRecursiveConfig → Machine P → Nat → Prop
  | here {level : Nat} {frame : PhysAddr} {c : UnmapRecursiveConfig} {m m' : Machine P} {v : Nat} {flag : Bool} :
      ComesTo T level frame c m (v, flag) m' → v < c.endVaddr → Visits T level frame c m v
  | child {level : Nat} {frame : PhysAddr} {c : UnmapRecursiveConfig} {m m' : Machine P} {v x : Nat} {flag : Bool} :
      ComesTo T (level + 1) frame c m (v, flag) m' → v < c.endVaddr →
      pointsToTable (level + 1) (m'.mem frame (T.slot (level + 1) v)) = true →
      Visits T level (childPaddr (m'.mem frame (T.slot (level + 1) v))) (unmapChildConfig T (level + 1) c v) m' x →
      Visits T (level + 1) frame c m x

section ComesTo

variable {level : Nat} {frame : PhysAddr} {c : UnmapRecursiveConfig} {m m' : Machine P} {v : Nat} {flag : Bool}

theorem unmapStep_forward {child : PhysAddr → UnmapRecursiveConfig → Run P Bool} {cursor : Nat × Bool}
    (hv : v < c.endVaddr) (h : unmapStep T child level frame c (v, flag) m = (.ok cursor, m')) : v ≤ cursor.1 := by
  obtain ⟨v', flag'⟩ := cursor
  have hlt := T.lt_entryEnd level v
  rcases (unmapStep_ok h).2 with ⟨-, rfl, -⟩ | ⟨-, -, rfl, -⟩ | ⟨-, rfl, -⟩
  · exact Nat.le_add_right _ _
  · exact Nat.le_add_right _ _
  · exact le_min hlt.le hv.le

theorem ComesTo.forward (h : ComesTo T level frame c m (v, flag) m') : c.startVaddr ≤ v := by
  have hall : ∀ x, Relation.ReflTransGen (Exec.Iterates (fun cursor : Nat × Bool => decide (cursor.1 < c.endVaddr))
      (unmapStep T (below T level) level frame c)) ((c.startVaddr, true), m) x → c.startVaddr ≤ x.1.1 := by
    intro x hx
    induction hx with
    | refl => exact Nat.le_refl _
    | tail _ hlast ih => exact ih.trans (unmapStep_forward (of_decide_eq_true hlast.1) hlast.2)
  exact hall ((v, flag), m') h

theorem Visits.inRange {x : Nat} (h : Visits T level frame c m x) : c.startVaddr ≤ x ∧ x < c.endVaddr := by
  induction h with
  | here hcomes hlt => exact ⟨hcomes.forward, hlt⟩
  | child hcomes _ _ _ ih =>
    obtain ⟨hle, hlt⟩ := ih
    exact ⟨hcomes.forward.trans hle, hlt.trans_le (Nat.min_le_right _ _)⟩

/-! ### What a call leaves invalid -/

def InvalidAt (isDir : Bool) (frame : PhysAddr) (i : Nat) (m : Machine P) : Prop :=
  (toConfig (m.mem frame i) isDir).valid = false

section Invalid

variable {limit : Nat} (hcodec : RoundTrips T limit) {isDir : Bool} {f : PhysAddr} {i : Nat}

include hcodec

theorem InvalidAt.write (h : InvalidAt isDir f i m) (frame : PhysAddr) (index : Nat) :
    InvalidAt isDir f i (m.write frame index (fromConfig invalidConfig)) := by
  rw [InvalidAt, Machine.write_mem]
  by_cases hf : f = frame
  · subst hf
    rw [Function.update_self]
    by_cases hi : i = index
    · rw [hi, Function.update_self]
      exact hcodec.invalid isDir
    · rwa [Function.update_of_ne hi]
  · rwa [Function.update_of_ne hf]

theorem InvalidAt.unmapStep (h : InvalidAt isDir f i m) {child : PhysAddr → UnmapRecursiveConfig → Run P Bool}
    (hchild : ∀ {frame c m r m'}, InvalidAt isDir f i m → child frame c m = (.ok r, m') → InvalidAt isDir f i m')
    {cursor cursor' : Nat × Bool} (hstep : unmapStep T child level frame c cursor m = (.ok cursor', m')) :
    InvalidAt isDir f i m' := by
  rcases (unmapStep_ok hstep).2 with ⟨-, -, -, rfl⟩ | ⟨-, -, -, -, -, hmem, -⟩ | ⟨-, -, -, reclaim, m₁, hcall, hrest⟩
  · exact h
  · rw [InvalidAt, hmem]
    exact h.write hcodec frame _
  · have h₁ := hchild h hcall
    rcases hrest with ⟨-, -, rfl⟩ | ⟨-, -, rfl⟩
    · exact h₁.write hcodec frame _
    · exact h₁

/-- A call only makes entries invalid, wherever they are. -/
theorem InvalidAt.below (h : InvalidAt isDir f i m) {r : Bool} (hcall : below T level frame c m = (.ok r, m')) :
    InvalidAt isDir f i m' := by
  induction level generalizing frame c m r m' with
  | zero => simp [Frame.below] at hcall
  | succ level ih =>
    rw [Frame.below, unmapRangeRecursive_eq] at hcall
    obtain ⟨cursor, m₁, hloop, hlast⟩ := Exec.bind_eq_ok.mp hcall
    obtain rfl : m₁ = m' := congrArg Prod.snd hlast
    revert h
    refine Exec.loop_ok_elim hloop (fun _ => id) ?_
    intro _ _ _ _ _ hstep hrest h
    exact hrest (h.unmapStep hcodec (fun h hcall => ih h hcall) hstep)

end Invalid

/-! ### The last entry -/

end ComesTo

end Frame

/-! ### The call -/

namespace PageTableRef

variable (T) (root : PhysAddr) (start size : Nat) (m : Machine P)

variable {T root start size m}

section

variable (haccepted : UnmapAccepted T start size)

include haccepted

end

end PageTableRef

end Sparreal.Paging
