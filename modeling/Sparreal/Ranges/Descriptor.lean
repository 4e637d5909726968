import Sparreal.Lib.Align
import Sparreal.Ranges.Def

/-!
# Memory descriptors

`MemoryDescriptor` of `kernutil/src/memory.rs`, the ranges of the memory map. Its arithmetic stays
inside `usize` as long as `physical_start + size_in_bytes` does, and `clone_with_range` is only called
with ranges whose end is not below their start.
-/

namespace Sparreal.Ranges

inductive MemoryType where
  | free
  | ram
  | kImage
  | reserved
  | mmio
  | perCpuData
  deriving DecidableEq, Repr

structure MemoryDescriptor where
  physicalStart : Nat
  sizeInBytes : Nat
  memoryType : MemoryType
  deriving DecidableEq, Repr

/-- `MemoryDescriptor::new_aligned`; there is no descriptor where an addition overflows. -/
def MemoryDescriptor.newAligned (physicalStart sizeInBytes : Nat) (memoryType : MemoryType)
    (align : Nat) : Option MemoryDescriptor :=
  let start := Align.down physicalStart align
  (Align.up (physicalStart + sizeInBytes) align).map fun stop => ⟨start, stop - start, memoryType⟩

instance : RangeOp MemoryDescriptor MemoryType Nat where
  range d := ⟨d.physicalStart, d.physicalStart + d.sizeInBytes⟩
  kind d := d.memoryType
  overwritable d _ := d.memoryType == .free
  cloneWithRange d r := ⟨r.start, r.stop - r.start, d.memoryType⟩

instance : LawfulRangeOp MemoryDescriptor where
  range_cloneWithRange d r hr := by
    have hlt : r.start < r.stop := hr
    show (⟨r.start, r.start + (r.stop - r.start)⟩ : Range Nat) = r
    rw [Nat.add_sub_cancel' (Nat.le_of_lt hlt)]
  kind_cloneWithRange d r := rfl

end Sparreal.Ranges
