import Sparreal.Boot.DeviceTree

/-!
# The memory map at the end of the boot

`early_init` and `memory_map_setup` of `someboot/src/mem/mod.rs` go on from the map of the device tree: they
add the kernel image, the code that starts the other processors of x86_64, the memory that the allocator of
`mem/ram.rs` has handed out, reserved or per-CPU, and the registers of the debug console, and sort the map.
How much memory is handed out (`Boot.Ram`) does not matter here, so the maps are given by a relation with one rule
for each insertion. All insertions are unwrapped but one.
-/

namespace Sparreal.Boot

open Ranges Paging

def kimageMapAlign : Nat := 2 * 1024 * 1024

/-- The descriptor of the kernel image, whose end `setup_entry` has rounded up. -/
def kimageDescriptor (kernelStart kernelEnd : Nat) : Option MemoryDescriptor :=
  (Align.up kernelEnd kimageMapAlign).map fun stop => ⟨kernelStart, stop - kernelStart, .kImage⟩

def apTrampolinePaddr : Nat := 0x8000

/-- `reserve_arch_early_ranges`, on x86_64. A conflict with memory that is not free is no error. -/
def reserveArchEarlyRanges (pageSize : Nat) : VecRun MemoryDescriptor Unit :=
  match MemoryDescriptor.newAligned apTrampolinePaddr pageSize .reserved pageSize with
  | none => Exec.throw .panic
  | some desc => fun m =>
    match addMemoryDescriptor desc m with
    | (.ok (), m') => (.ok (), m')
    | (.error (.err (.conflict _ existing)), m') =>
      if existing.memoryType ≠ .free then (.ok (), m') else (.error .panic, m')
    | (.error _, m') => (.error .panic, m')

/-- The descriptor of `ram::used_range()`. -/
def usedDescriptor (pageSize ramStart ramCurrent : Nat) (kind : MemoryType) : Option MemoryDescriptor :=
  (Align.up ramCurrent pageSize).map fun stop => ⟨ramStart, stop - ramStart, kind⟩

/-- `debug_to_memory_desc`, for registers that are memory. -/
def debugToMemoryDesc (pageSize debugBase : Nat) : Option MemoryDescriptor :=
  MemoryDescriptor.newAligned debugBase 100 .mmio pageSize

inductive BootMap (pageSize : Nat) : List MemoryDescriptor → Prop
  /-- `init_memory_map`. -/
  | fdt {fdt : Fdt} {m : List MemoryDescriptor} (h : initMemoryMap pageSize fdt [] = (.ok (), m)) :
      BootMap pageSize m
  | kimage {m m' : List MemoryDescriptor} {kernelStart kernelEnd : Nat} {desc : MemoryDescriptor}
      (hm : BootMap pageSize m) (hdesc : kimageDescriptor kernelStart kernelEnd = some desc)
      (h : addMemoryDescriptor desc m = (.ok (), m')) : BootMap pageSize m'
  | arch {m m' : List MemoryDescriptor} (hm : BootMap pageSize m)
      (h : reserveArchEarlyRanges pageSize m = (.ok (), m')) : BootMap pageSize m'
  /-- `flush_to_memory_map`, for the memory before and in the per-CPU area, and `memory_map_setup`. -/
  | ram {m m' : List MemoryDescriptor} {ramStart ramCurrent : Nat} {kind : MemoryType}
      {desc : MemoryDescriptor} (hm : BootMap pageSize m) (hkind : kind = .reserved ∨ kind = .perCpuData)
      (hdesc : usedDescriptor pageSize ramStart ramCurrent kind = some desc) (hused : 0 < desc.sizeInBytes)
      (h : addMemoryDescriptor desc m = (.ok (), m')) : BootMap pageSize m'
  | console {m m' : List MemoryDescriptor} {debugBase : Nat} {desc : MemoryDescriptor}
      (hm : BootMap pageSize m) (hdesc : debugToMemoryDesc pageSize debugBase = some desc)
      (h : addMemoryDescriptor desc m = (.ok (), m')) : BootMap pageSize m'
  /-- `sort_by_key`. -/
  | sort {m m' : List MemoryDescriptor} (hm : BootMap pageSize m) (hperm : m'.Perm m) : BootMap pageSize m'

theorem laid_initMemoryMap (pageSize : Nat) (fdt : Fdt) : Exec.Keeps Laid (initMemoryMap pageSize fdt) := by
  refine (Exec.keeps_forM fun memory _ => Exec.keeps_forM fun region _ => ?_).bind fun _ =>
    (Exec.keeps_forM fun reserved _ => ?_).bind fun _ => Exec.keeps_forM fun reg _ => ?_
  · unfold addRegion
    split_ifs
    · exact Exec.keeps_pure _ _
    · exact laid_addMemoryDescriptor _
  · unfold addReservation
    split
    · exact Exec.keeps_throw _ _
    · exact laid_addMemoryDescriptor _
  · unfold addReserved
    split
    · split_ifs
      · exact laid_addMemoryDescriptor _
      · exact Exec.keeps_pure _ _
    · exact Exec.keeps_pure _ _

theorem laid_reserveArchEarlyRanges (pageSize : Nat) : Exec.Keeps Laid (reserveArchEarlyRanges pageSize) := by
  intro m ⟨⟩ m' hm hok
  unfold reserveArchEarlyRanges at hok
  cases hdesc : MemoryDescriptor.newAligned apTrampolinePaddr pageSize .reserved pageSize with
  | none =>
    rw [hdesc] at hok
    simp at hok
  | some desc =>
    simp only [hdesc] at hok
    split at hok
    case h_1 hadd =>
      obtain ⟨-, rfl⟩ := Prod.mk.inj hok
      exact laid_addMemoryDescriptor desc hm hadd
    case h_2 hadd =>
      split_ifs at hok
      · obtain ⟨-, rfl⟩ := Prod.mk.inj hok
        exact hm.remains hadd
      · simp at hok
    case h_3 => simp at hok

theorem BootMap.laid {pageSize : Nat} {m : List MemoryDescriptor} (hm : BootMap pageSize m) : Laid m := by
  induction hm with
  | fdt h => exact laid_initMemoryMap _ _ ⟨.nil, Nat.zero_le _⟩ h
  | kimage _ _ h ih | ram _ _ _ _ h ih | console _ _ h ih => exact laid_addMemoryDescriptor _ ih h
  | arch _ h ih => exact laid_reserveArchEarlyRanges _ ih h
  | sort _ hperm ih =>
    exact ⟨(Tiling.tiles_perm hperm).mpr ih.tiles, hperm.length_eq ▸ ih.fits⟩

end Sparreal.Boot
