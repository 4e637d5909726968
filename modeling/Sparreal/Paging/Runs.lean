import Sparreal.Paging.Contract

/-!
# Mapping and unmapping on trees

What a call of `map_range_recursive` or `unmap_range_recursive` that returns does to the tree of its
table and to the history of the frame allocator, as big-step relations: one constructor for each way
an iteration of the loop can go, with the rest of the loop as its last premise. Memory, flushes and
machine arithmetic are gone; that the code refines these relations is shown in `RefineMap` and
`RefineUnmap`.
-/

namespace Sparreal.Paging

namespace TableMeta

variable {P : Type} (T : TableMeta P)

/-- The end of the entry of level `level` that covers `vaddr`. -/
def entryEnd (level : Nat) (vaddr : Nat) : Nat := (vaddr / T.size level + 1) * T.size level

theorem lt_entryEnd (level : Nat) (vaddr : Nat) : vaddr < T.entryEnd level vaddr := by
  rw [entryEnd, Nat.mul_comm]
  exact Nat.lt_mul_div_succ vaddr (T.size_pos level)

end TableMeta

variable {P : Type} [PageTableEntry P] (T : TableMeta P) (A : FrameAllocator) (limit : Nat)

/-- The table below entry `i` is there, or a new one is linked. -/
inductive ChildReady (template : PteConfig) (t : Tree P) (i : Nat) (log : Ledger PhysAddr) :
    Tree P → Ledger PhysAddr → Prop where
  | present (hdir : isDirectory (t.entry i) = true) : ChildReady template t i log t log
  | created {frame : PhysAddr} (hfree : (toConfig (t.entry i) true).valid = false)
      (halloc : A.allocFrame log = some frame) :
      ChildReady template t i log
        (t.set i (fromConfig (template.directory frame)) (Tree.fresh frame)) (.grant frame :: log)

/-- `MapRun level e v p t log r t' log'`: the loop of `map_range_recursive` on a level-`level` table
`t`, standing at virtual address `v` and physical address `p` with the range ending at `e`, returns
`r` and leaves `t'`. -/
inductive MapRun (template : PteConfig) :
    Nat → Nat → Nat → Nat → Tree P → Ledger PhysAddr →
      Except PagingError Unit → Tree P → Ledger PhysAddr → Prop where
  | done {level e v p t log} (hv : e ≤ v) : MapRun template level e v p t log (.ok ()) t log
  /-- A conflict, or a huge page where a table is needed. -/
  | fail {level e v p t log error} : MapRun template level e v p t log (.error error) t log
  | noMemory {level e v p t log} :
      MapRun template level e v p t log (.error .noMemory) t (.refuse :: log)
  | place {level e v p t log r t' log'} (hv : v < e)
      (hlevel : level = 1 ∨ 1 < level ∧ level ≤ T.maxBlockLevel ∧ T.size level ∣ v ∧
        T.size level ∣ p ∧ T.size level ≤ e - v)
      (haligned : T.pageSize ∣ p) (hbelow : p < limit) (hfits : p + T.size level < usizeRange)
      (hfree : PageTableEntry.valid (t.entry (T.slot level v)) = false)
      (rest : MapRun template level e (v + T.size level) (p + T.size level)
        (t.set (T.slot level v) (fromConfig (template.final level p)) .nil) log r t' log') :
      MapRun template level e v p t log r t' log'
  | descend {level e v p t log t₁ log₁ k log₂ r t' log'} (hv : v < e) (hlevel : 0 < level)
      (ready : ChildReady A template t (T.slot (level + 1) v) log t₁ log₁)
      (child : MapRun template level (min (T.entryEnd (level + 1) v) e) v p
        (t₁.kid (T.slot (level + 1) v)) log₁ (.ok ()) k log₂)
      (rest : MapRun template (level + 1) e (min (T.entryEnd (level + 1) v) e)
        (p + (min (T.entryEnd (level + 1) v) e - v)) (t₁.setKid (T.slot (level + 1) v) k) log₂
        r t' log') :
      MapRun template (level + 1) e v p t log r t' log'
  | descendFail {level e v p t log t₁ log₁ k log₂ error} (hv : v < e) (hlevel : 0 < level)
      (ready : ChildReady A template t (T.slot (level + 1) v) log t₁ log₁)
      (child : MapRun template level (min (T.entryEnd (level + 1) v) e) v p
        (t₁.kid (T.slot (level + 1) v)) log₁ (.error error) k log₂) :
      MapRun template (level + 1) e v p t log (.error error)
        (t₁.setKid (T.slot (level + 1) v) k) log₂

/-- `UnmapRun level e v flag t log r t' log'`: the loop of `unmap_range_recursive` on a
level-`level` table `t`, standing at `v` with `can_reclaim = flag` and the range ending at `e`, and
the scan after it, return `r` and leave `t'`. -/
inductive UnmapRun :
    Nat → Nat → Nat → Bool → Tree P → Ledger PhysAddr →
      Bool → Tree P → Ledger PhysAddr → Prop where
  | done {level e v flag t log} (hv : e ≤ v) :
      UnmapRun level e v flag t log (flag && t.isEmpty T) t log
  | skip {level e v flag t log r t' log'} (hv : v < e)
      (hinvalid : (toConfig (t.entry (T.slot level v)) (decide (1 < level))).valid = false)
      (rest : UnmapRun level e (v + min (T.size level) (e - v)) flag t log r t' log') :
      UnmapRun level e v flag t log r t' log'
  | clear {level e v flag t log r t' log'} (hv : v < e)
      (hvalid : (toConfig (t.entry (T.slot level v)) (decide (1 < level))).valid = true)
      (hfinal : pointsToTable level (t.entry (T.slot level v)) = false)
      (rest : UnmapRun level e (v + T.size level) flag
        (t.set (T.slot level v) (fromConfig invalidConfig) .nil) log r t' log') :
      UnmapRun level e v flag t log r t' log'
  | reclaim {level e v flag t log k log₁ r t' log'} (hv : v < e)
      (hp : pointsToTable (level + 1) (t.entry (T.slot (level + 1) v)) = true)
      (child : UnmapRun level (min (T.entryEnd (level + 1) v) e) v true
        (t.kid (T.slot (level + 1) v)) log true k log₁)
      (rest : UnmapRun (level + 1) e (min (T.entryEnd (level + 1) v) e) flag
        (t.set (T.slot (level + 1) v) (fromConfig invalidConfig) .nil)
        (.release (childPaddr (t.entry (T.slot (level + 1) v))) :: log₁) r t' log') :
      UnmapRun (level + 1) e v flag t log r t' log'
  | keep {level e v flag t log k log₁ r t' log'} (hv : v < e)
      (hp : pointsToTable (level + 1) (t.entry (T.slot (level + 1) v)) = true)
      (child : UnmapRun level (min (T.entryEnd (level + 1) v) e) v true
        (t.kid (T.slot (level + 1) v)) log false k log₁)
      (rest : UnmapRun (level + 1) e (min (T.entryEnd (level + 1) v) e) false
        (t.setKid (T.slot (level + 1) v) k) log₁ r t' log') :
      UnmapRun (level + 1) e v flag t log r t' log'

end Sparreal.Paging
