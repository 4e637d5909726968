import Sparreal.Paging.Frame

/-!
# Mapping and unmapping a range of one table

`map.rs`: `map_range_recursive` and `unmap_range_recursive`. One iteration of each loop is a step
function (`mapStep`, `unmapStep`) of the loop variables; the recursion into the table below is a
parameter of the step and is closed by recursion on the level.

The bound on the iterations is the length of the range: every iteration of either loop advances the
address.
-/

namespace Sparreal.Paging

variable {P : Type} [PageTableEntry P]

structure MapConfig where
  vaddr : Nat
  paddr : Nat
  size : Nat
  pte : PteConfig
  allowHuge : Bool
  flush : Bool
  deriving DecidableEq, Repr

/-- `MapRecursiveConfig`; the level is the argument the recursion is on. -/
structure MapRecursiveConfig where
  startVaddr : Nat
  startPaddr : Nat
  endVaddr : Nat
  allowHuge : Bool
  flush : Bool
  pteTemplate : PteConfig
  deriving DecidableEq, Repr

structure UnmapConfig where
  startVaddr : Nat
  size : Nat
  flush : Bool
  deriving DecidableEq, Repr

/-- `UnmapRecursiveConfig`; the level is the argument the recursion is on. -/
structure UnmapRecursiveConfig where
  startVaddr : Nat
  endVaddr : Nat
  flush : Bool
  deriving DecidableEq, Repr

/-- `(vaddr / level_size).saturating_add(1).saturating_mul(level_size)`. -/
def saturatingEntryEnd (vaddr levelSize : Nat) : Nat :=
  min (min (vaddr / levelSize + 1) usizeMax * levelSize) usizeMax

namespace PteConfig

/-- The configuration of a final entry: the template with the address, valid, and huge above the
leaf level. -/
def final (template : PteConfig) (level : Nat) (paddr : Nat) : PteConfig :=
  { template with
    paddr := paddr
    valid := true
    huge := decide (1 < level)
    isDir := decide (1 < level) }

/-- The configuration of a pointer to the table at `paddr`. -/
def directory (template : PteConfig) (paddr : Nat) : PteConfig :=
  { template with paddr := paddr, valid := true, huge := false, isDir := true }

end PteConfig

namespace Frame

variable (T : TableMeta P) (A : FrameAllocator)

def canUseHuge (c : MapRecursiveConfig) (level : Nat) (vaddr paddr : Nat) : Bool :=
  c.allowHuge && decide (1 < level) && decide (level ≤ T.maxBlockLevel) &&
    decide (T.levelSize level ≤ c.endVaddr - vaddr) && vaddr % T.levelSize level == 0 &&
    paddr % T.levelSize level == 0

/-- Write a final entry into a free slot: the common part of the huge-page branch and of the
leaf branch of `map_range_recursive`, which differ in the entry's configuration only. -/
def placeEntry (frame : PhysAddr) (index : Nat) (config : PteConfig) (flush : Bool)
    (vaddr paddr : Nat) : Run P Unit := do
  let pte ← readEntry frame index
  if PageTableEntry.valid pte then Exec.throw (.err (.mappingConflict vaddr paddr))
  else
    writeEntry frame index (fromConfig config)
    if flush then Frame.flush vaddr

/-- The table below entry `index`: the one it points to, or a new one linked there. -/
def childFrame (frame : PhysAddr) (index : Nat) (template : PteConfig) : Run P PhysAddr := do
  let current ← readEntry frame index
  let config := toConfig current true
  if config.valid then
    if config.huge then
      Exec.throw (.err (.hierarchyError "Cannot create page table under huge page"))
    else pure config.paddr
  else
    let newFrame ← Frame.new A
    writeEntry frame index (fromConfig (template.directory newFrame))
    pure newFrame

/-- One iteration of the loop of `map_range_recursive` at `(vaddr, paddr)`; `child` is the call one
level below. -/
def mapStep (child : PhysAddr → MapRecursiveConfig → Run P Unit) (level : Nat) (frame : PhysAddr)
    (c : MapRecursiveConfig) (cursor : Nat × Nat) : Run P (Nat × Nat) := do
  let (vaddr, paddr) := cursor
  let index ← Exec.ofExcept (T.virtToIndex vaddr level)
  if canUseHuge T c level vaddr paddr then
    placeEntry frame index (c.pteTemplate.final level paddr) c.flush vaddr paddr
    let vaddr' ← Exec.ofExcept (addUsize vaddr (T.levelSize level))
    let paddr' ← Exec.ofExcept (addUsize paddr (T.levelSize level))
    pure (vaddr', paddr')
  else if level = 1 then
    placeEntry frame index (c.pteTemplate.final level paddr) c.flush vaddr paddr
    let vaddr' ← Exec.ofExcept (addUsize vaddr T.pageSize)
    let paddr' ← Exec.ofExcept (addUsize paddr T.pageSize)
    pure (vaddr', paddr')
  else
    let childPaddr ← childFrame A frame index c.pteTemplate
    let nextLevelVaddr := min (saturatingEntryEnd vaddr (T.levelSize level)) c.endVaddr
    child childPaddr { c with startVaddr := vaddr, startPaddr := paddr, endVaddr := nextLevelVaddr }
    let paddr' ← Exec.ofExcept (addUsize paddr (nextLevelVaddr - vaddr))
    pure (nextLevelVaddr, paddr')

/-- The loop of `map_range_recursive`. -/
def mapLoop (child : PhysAddr → MapRecursiveConfig → Run P Unit) (level : Nat) (frame : PhysAddr)
    (c : MapRecursiveConfig) : Nat → Nat × Nat → Run P (Nat × Nat) :=
  Exec.loop .diverge (fun cursor => decide (cursor.1 < c.endVaddr)) (mapStep T A child level frame c)

def mapRangeRecursive : Nat → PhysAddr → MapRecursiveConfig → Run P Unit
  | 0, frame, c => do
    let _ ← mapLoop T A (fun _ _ => Exec.throw .panic) 0 frame c (c.endVaddr - c.startVaddr)
      (c.startVaddr, c.startPaddr)
  | level + 1, frame, c => do
    let _ ← mapLoop T A (mapRangeRecursive level) (level + 1) frame c (c.endVaddr - c.startVaddr)
      (c.startVaddr, c.startPaddr)

def clearEntry (frame : PhysAddr) (index : Nat) (flush : Bool) (vaddr : Nat) : Run P Unit := do
  writeEntry frame index (fromConfig invalidConfig)
  if flush then Frame.flush vaddr

/-- One iteration of the loop of `unmap_range_recursive` at `(vaddr, can_reclaim)`. -/
def unmapStep (child : PhysAddr → UnmapRecursiveConfig → Run P Bool) (level : Nat)
    (frame : PhysAddr) (c : UnmapRecursiveConfig) (cursor : Nat × Bool) :
    Run P (Nat × Bool) := do
  let (vaddr, canReclaim) := cursor
  let index ← Exec.ofExcept (T.virtToIndex vaddr level)
  let levelSize := T.levelSize level
  let remainingSize := c.endVaddr - vaddr
  let pte ← readEntry frame index
  let pteConfig := toConfig pte (decide (1 < level))
  if !pteConfig.valid then
    let vaddr' ← Exec.ofExcept (addUsize vaddr (min levelSize remainingSize))
    pure (vaddr', canReclaim)
  else if level == 1 || pteConfig.huge then
    clearEntry frame index c.flush vaddr
    let vaddr' ← Exec.ofExcept
      (addUsize vaddr (if pteConfig.huge then levelSize else T.pageSize))
    pure (vaddr', canReclaim)
  else
    let currentEntryEnd ← Exec.ofExcept (mulUsize (vaddr / levelSize + 1) levelSize)
    let nextLevelVaddr := min currentEntryEnd c.endVaddr
    let childCanReclaim ←
      child pteConfig.paddr { c with startVaddr := vaddr, endVaddr := nextLevelVaddr }
    if childCanReclaim then
      writeEntry frame index (fromConfig invalidConfig)
      deallocFrame pteConfig.paddr
      pure (nextLevelVaddr, canReclaim)
    else pure (nextLevelVaddr, false)

/-- The loop of `unmap_range_recursive`. -/
def unmapLoop (child : PhysAddr → UnmapRecursiveConfig → Run P Bool) (level : Nat)
    (frame : PhysAddr) (c : UnmapRecursiveConfig) :
    Nat → Nat × Bool → Run P (Nat × Bool) :=
  Exec.loop .diverge (fun cursor => decide (cursor.1 < c.endVaddr)) (unmapStep T child level frame c)

/-- The result of `unmap_range_recursive` after its loop: is the frame empty? -/
def reclaimable (frame : PhysAddr) (canReclaim : Bool) : Run P Bool :=
  Exec.gets fun m => canReclaim && isFrameEmpty T m.mem frame

def unmapRangeRecursive : Nat → PhysAddr → UnmapRecursiveConfig → Run P Bool
  | 0, frame, c => do
    let cursor ← unmapLoop T (fun _ _ => Exec.throw .panic) 0 frame c (c.endVaddr - c.startVaddr)
      (c.startVaddr, true)
    reclaimable T frame cursor.2
  | level + 1, frame, c => do
    let cursor ← unmapLoop T (unmapRangeRecursive level) (level + 1) frame c
      (c.endVaddr - c.startVaddr) (c.startVaddr, true)
    reclaimable T frame cursor.2

end Frame

end Sparreal.Paging
