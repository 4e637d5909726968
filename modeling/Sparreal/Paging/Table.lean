import Sparreal.Paging.Map

/-!
# The page table

`PageTableRef` of `table.rs`, given by its root frame, and the states its callers can bring it into:
`Reachable` closes `PageTableRef::new` under calls of `map` and `unmap` that return, with `Ok` or
with any `Err`.
-/

namespace Sparreal.Paging

variable {P : Type} [PageTableEntry P]

namespace PageTableRef

variable (T : TableMeta P) (A : FrameAllocator)

def new : Run P PhysAddr := Frame.new A

def validateMapConfig (config : MapConfig) : Except Fault Unit :=
  if config.size = 0 then .error (.err (.invalidSize "Size cannot be zero"))
  else if config.vaddr % T.pageSize ≠ 0 then
    .error (.err (.alignmentError "Virtual address not page aligned"))
  else if config.paddr % T.pageSize ≠ 0 then
    .error (.err (.alignmentError "Physical address not page aligned"))
  else .ok ()

def map (root : PhysAddr) (config : MapConfig) : Run P Unit := do
  Exec.ofExcept (validateMapConfig T config)
  if usizeMax < config.vaddr + config.size ∨ usizeMax < config.paddr + config.size then
    Exec.throw (.err (.addressOverflow "Virtual or physical address overflow"))
  else
    Frame.mapRangeRecursive T A T.ptLevel root
      { startVaddr := config.vaddr
        startPaddr := config.paddr
        endVaddr := config.vaddr + config.size
        allowHuge := config.allowHuge
        flush := config.flush
        pteTemplate := config.pte }

def validateUnmapParams (startVaddr size : Nat) : Except Fault Unit :=
  if size = 0 then .error (.err (.invalidSize "Size cannot be zero in unmap"))
  else if startVaddr % T.pageSize ≠ 0 then
    .error (.err (.alignmentError "Start virtual address not page aligned in unmap"))
  else if size % T.pageSize ≠ 0 then
    .error (.err (.alignmentError "Size not page aligned in unmap"))
  else .ok ()

/-- The common part of `PageTableRef::unmap` and `PageTableRef::unmap_with_config`, which differ in
the text of the overflow error and in the flush flag. -/
def unmapRange (overflow : String) (root : PhysAddr) (startVaddr size : Nat)
    (flush : Bool) : Run P Unit := do
  Exec.ofExcept (validateUnmapParams T startVaddr size)
  if usizeMax < startVaddr + size then Exec.throw (.err (.addressOverflow overflow))
  else
    let _ ← Frame.unmapRangeRecursive T T.ptLevel root
      { startVaddr := startVaddr, endVaddr := startVaddr + size, flush := flush }

def unmap (root : PhysAddr) (startVaddr size : Nat) : Run P Unit :=
  unmapRange T "Virtual address overflow in unmap" root startVaddr size true

def unmapWithConfig (root : PhysAddr) (config : UnmapConfig) : Run P Unit :=
  unmapRange T "Virtual address overflow in unmap_with_config" root config.startVaddr config.size
    config.flush

/-- `PageTableRef::deallocate`, which is all the `Drop` of a `PageTable` does. -/
def deallocate (root : PhysAddr) : Run P Unit := Frame.deallocateRecursive T T.ptLevel root

def translate (m : Machine P) (root : PhysAddr) (vaddr : Nat) : Except Fault (Nat × P) :=
  match Frame.translateRecursiveWithLevel T m.mem T.ptLevel root vaddr with
  | .error fault => .error fault
  | .ok (pte, level) =>
    let pteConfig := toConfig pte (decide (1 < level))
    let offsetInPage :=
      if pteConfig.huge then vaddr % T.levelSize level else vaddr % T.pageSize
    match addUsize pteConfig.paddr offsetInPage with
    | .error fault => .error fault
    | .ok physAddr => .ok (physAddr, pte)

def translatePhys (m : Machine P) (root : PhysAddr) (vaddr : Nat) : Except Fault Nat :=
  (translate T m root vaddr).map Prod.fst

def isMapped (m : Machine P) (root : PhysAddr) (vaddr : Nat) : Bool :=
  (translate T m root vaddr).isOk

end PageTableRef

/-- The call came back, with `Ok` or with an `Err`. -/
def Returned {α : Type} : Except Fault α → Prop
  | .ok _ => True
  | .error (.err _) => True
  | .error _ => False

/-- The states of a page table: a new table, and what calls of `map` and `unmap` that come back make
of it. The physical ranges mapped stay below `limit`, the addresses an entry can hold. -/
inductive Reachable (T : TableMeta P) (A : FrameAllocator) (limit : Nat) (root : PhysAddr) :
    Machine P → Prop where
  | new {m₀ m : Machine P} (hlog : m₀.log = []) (hnew : PageTableRef.new A m₀ = (.ok root, m)) :
      Reachable T A limit root m
  | map {m m' : Machine P} {config : MapConfig} {r : Except Fault Unit}
      (hm : Reachable T A limit root m) (hlimit : config.paddr + config.size ≤ limit)
      (hmap : PageTableRef.map T A root config m = (r, m')) (hr : Returned r) :
      Reachable T A limit root m'
  | unmap {m m' : Machine P} {startVaddr size : Nat} {r : Except Fault Unit}
      (hm : Reachable T A limit root m)
      (hunmap : PageTableRef.unmap T root startVaddr size m = (r, m')) (hr : Returned r) :
      Reachable T A limit root m'

end Sparreal.Paging
