import Sparreal.Lib.Align
import Sparreal.Paging.Owned
import Sparreal.Paging.Progress

/-!
# The page table of the kernel

The trait `PageTable` of `hal/al.rs`, as `PageTableImpl` of the runtime implements it on the generic page
table, and the windows in which the kernel finds physical memory: `__va`, `__io` and `__percpu` add a
constant to the physical address, `__kimage_va` takes the load offset of the image off it.
-/

namespace Sparreal.Kernel

open Paging

structure AccessFlags where
  read : Bool := false
  write : Bool := false
  execute : Bool := false
  lower : Bool := false
  deriving DecidableEq, Repr

structure MemConfig where
  access : AccessFlags
  attrs : MemAttributes
  deriving DecidableEq, Repr

def deviceSettings : MemConfig where
  access := { read := true, write := true }
  attrs := .device

/-- `x.align_up(align)`. -/
def alignUp (x align : Nat) : Except Fault Nat :=
  match Align.up x align with
  | none => .error .panic
  | some y => .ok y

/-! ### `PageTableImpl` -/

namespace PageTableImpl

variable {P : Type} [PageTableEntry P] (T : TableMeta P) (A : FrameAllocator) (root : PhysAddr)

/-- The entries `map` writes; `read` is set whatever the settings say. -/
def pte (settings : MemConfig) : PteConfig where
  valid := true
  read := true
  writable := settings.access.write
  executable := settings.access.execute
  memAttr := settings.attrs

def map (virtStart physStart size : Nat) (settings : MemConfig) (flush : Bool) : Run P Unit :=
  PageTableRef.map T A root
    { vaddr := virtStart, paddr := physStart, size := size, pte := pte settings, allowHuge := true,
      flush := flush }

def unmap (virtStart size : Nat) : Run P Unit := PageTableRef.unmap T root virtStart size

end PageTableImpl

/-! ### Windows -/

/-- The constants `_va`, `_io` and `_percpu` of an architecture add, and `vm_load_offset()`. -/
structure Windows where
  vaOffset : Nat
  ioOffset : Nat
  percpuOffset : Nat
  kimageOffset : Int
  deriving DecidableEq, Repr

namespace Windows

variable (W : Windows) (paddr : Nat)

def va : Except Fault Nat := addUsize paddr W.vaOffset

def io : Except Fault Nat := addUsize paddr W.ioOffset

def percpu : Except Fault Nat := addUsize paddr W.percpuOffset

/-- `__kimage_va`: `(addr.raw() as isize - offset) as usize`. -/
def kimageVa : Except Fault Nat :=
  let diff := (paddr : Int).bmod (2 ^ 64) - W.kimageOffset
  if -2 ^ 63 ≤ diff ∧ diff < 2 ^ 63 then .ok (diff % 2 ^ 64).toNat else .error .panic

end Windows

end Sparreal.Kernel
