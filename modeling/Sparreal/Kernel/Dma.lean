import Sparreal.Dma.Container
import Sparreal.Kernel.Allocator

/-!
# Coherent memory from the kernel heap

`KernelDmaOp` of `os/mem/dma.rs`, the backend of the DMA containers in the kernel. A mask of more than 32 bits
has the high heap asked first; what it answers is compared with the mask afterwards, by its first byte, and
the low heap is not asked again.
-/

namespace Sparreal.Kernel

open Ranges (Range)
open Dma (Layout DmaHandle Memory DmaOp)

abbrev Heaps := History → Layout → Answer

/-- The heaps answer with blocks of their own, of one byte at least. -/
def Heaps.Answers (heaps : Heaps) (s : History) (layout : Layout) : Prop :=
  ∀ heap ptr, heaps s layout heap = some ptr → Inside (s.regions heap) ptr (max layout.size 1)

namespace KernelDmaOp

section Model

variable (phys : Nat → Nat) (heaps : Heaps)

/-- `dealloc_raw` in the history. -/
def free (b : Block) (s : History) : History :=
  { s with live := s.live.erase b, freed := (b, deallocRaw phys b.ptr) :: s.freed }

def allocCoherent (dmaMask : Nat) (layout : Layout) (s : History × Memory) :
    Option DmaHandle × (History × Memory) :=
  match allocWithMask dmaMask (heaps s.1 layout) with
  | none => (none, s)
  | some (ptr, heap) =>
    let block : Block := ⟨.masked dmaMask, ptr, layout.size, heap⟩
    let history := { s.1 with live := block :: s.1.live }
    let memory := s.2.write ptr (List.replicate layout.size 0)
    let dmaAddr := phys ptr
    if dmaMask < dmaAddr ∨ dmaAddr % layout.align ≠ 0 then (none, (free phys block history, memory))
    else (some ⟨ptr, dmaAddr, layout⟩, (history, memory))

def deallocCoherent (handle : DmaHandle) (s : History × Memory) : History × Memory :=
  match s.1.live.find? (·.ptr = handle.cpuAddr) with
  | none => s
  | some block => (free phys block s.1, s.2)

end Model

variable {phys : Nat → Nat} {heaps : Heaps} {memory : List (Range Nat)} {s : History} {m : Memory}
  {layout : Layout} {dmaMask ptr : Nat} {heap : HeapId}

theorem allocCoherent_fst (hpick : allocWithMask dmaMask (heaps s layout) = some (ptr, heap)) :
    (allocCoherent phys heaps dmaMask layout (s, m)).1 =
      if dmaMask < phys ptr ∨ phys ptr % layout.align ≠ 0 then none else some ⟨ptr, phys ptr, layout⟩ := by
  simp only [allocCoherent, hpick]
  split_ifs <;> rfl

theorem allocCoherent_layout {h : DmaHandle} {s' : History × Memory}
    (hrun : allocCoherent phys heaps dmaMask layout (s, m) = (some h, s')) : h.layout = layout := by
  cases hpick : allocWithMask dmaMask (heaps s layout) with
  | none => rw [allocCoherent, hpick] at hrun; cases hrun
  | some b =>
    have hfst : (allocCoherent phys heaps dmaMask layout (s, m)).1 = _ := allocCoherent_fst hpick
    rw [hrun] at hfst
    split_ifs at hfst
    exact congrArg DmaHandle.layout (Option.some.inj hfst)

def kernelDmaOp (phys : Nat → Nat) (heaps : Heaps) : DmaOp History where
  allocCoherent := allocCoherent phys heaps
  deallocCoherent := deallocCoherent phys
  layout_eq hrun := allocCoherent_layout hrun

theorem allocWithMask_low {answer : Answer} (hlow : answer .low = some ptr)
    (hfirst : dmaMask ≤ u32Max ∨ answer .high = none) : allocWithMask dmaMask answer = some (ptr, .low) := by
  rw [allocWithMask]
  split_ifs with hnarrow
  · rw [tryAlloc, hlow, Option.map_some]
  · simp only [tryAlloc, hfirst.resolve_left hnarrow, hlow, Option.map_none, Option.map_some, Option.none_or]

theorem allocWithMask_high {answer : Answer} (hwide : u32Max < dmaMask) (hhigh : answer .high = some ptr) :
    allocWithMask dmaMask answer = some (ptr, .high) := by
  rw [allocWithMask, if_neg (Nat.not_le.mpr hwide), tryAlloc, hhigh, Option.map_some, Option.some_or]

theorem phys_add_le_u32Max (hmem : ∀ r ∈ memory, Contiguous phys r) (hs : Reachable phys memory s) {size : Nat}
    (hinside : Inside (s.regions .low) ptr size) (hsize : 0 < size) : phys ptr + (size - 1) ≤ u32Max := by
  obtain ⟨r, hr, hge, hle⟩ := hinside
  obtain ⟨hr, hheap⟩ := hs.regions .low r hr
  have hptr := hmem r hr ptr hge (by omega)
  have hlast := hmem r hr (r.stop - 1) (by omega) (by omega)
  have hfits : addressRangeFitsIn32bit phys r.start r.stop = true := by
    by_contra hfits
    rw [heapOfRegion, if_neg hfits] at hheap
    cases hheap
  rw [addressRangeFitsIn32bit, if_neg (by omega)] at hfits
  have hend := of_decide_eq_true (Bool.and_eq_true_iff.mp hfits).2
  rw [hptr]
  refine le_trans ?_ (hlast ▸ hend)
  omega

/-! ### What the mask allows -/

def Found (phys : Nat → Nat) (heaps : Heaps) (dmaMask : Nat) (layout : Layout) (s : History) (m : Memory) :
    Prop :=
  (heaps s layout .low).isSome →
    ∃ h, ((kernelDmaOp phys heaps).allocCoherent dmaMask layout (s, m)).1 = some h ∧
      ∀ x, h.dmaAddr ≤ x → x < h.dmaAddr + h.size → x ≤ dmaMask

/-- The block that is picked is checked for its start, and may end above the mask. -/
theorem allocCoherent_within (hpick : allocWithMask dmaMask (heaps s layout) = some (ptr, heap)) :
    (∃ h, ((kernelDmaOp phys heaps).allocCoherent dmaMask layout (s, m)).1 = some h ∧
        ∀ x, h.dmaAddr ≤ x → x < h.dmaAddr + h.size → x ≤ dmaMask) ↔
      layout.align ∣ phys ptr ∧ phys ptr + (max layout.size 1 - 1) ≤ dmaMask := by
  rw [kernelDmaOp, allocCoherent_fst hpick]
  constructor
  · rintro ⟨h, hsome, hwithin⟩
    split_ifs at hsome with hcheck
    obtain rfl := Option.some.inj hsome
    obtain ⟨hle, halign⟩ := not_or.mp hcheck
    refine ⟨Nat.dvd_of_mod_eq_zero (not_not.mp halign), ?_⟩
    by_cases hzero : layout.size = 0
    · omega
    · have hlast : phys ptr + layout.size - 1 < phys ptr + layout.size := by omega
      have := hwithin (phys ptr + layout.size - 1) (by show phys ptr ≤ _; omega) hlast
      omega
  · rintro ⟨halign, hend⟩
    rw [if_neg (by
      rintro (hgt | hmod)
      · omega
      · exact hmod (Nat.mod_eq_zero_of_dvd halign))]
    refine ⟨_, rfl, fun x hle hlt => ?_⟩
    have hlt' : x < phys ptr + layout.size := hlt
    omega

/-- What the low heap has is found exactly if it is aligned for the device, where the mask has 32 bits or the high heap
has nothing; and otherwise if the block of the high heap is, and all of it is within the mask. -/
theorem found_iff (hmem : ∀ r ∈ memory, Contiguous phys r) (hs : Reachable phys memory s)
    (hanswers : heaps.Answers s layout) (hmask : u32Max ≤ dmaMask) :
    Found phys heaps dmaMask layout s m ↔ ∀ low, heaps s layout .low = some low →
      (dmaMask = u32Max ∨ heaps s layout .high = none → layout.align ∣ phys low) ∧
      ∀ high, dmaMask ≠ u32Max → heaps s layout .high = some high →
        layout.align ∣ phys high ∧ phys high + (max layout.size 1 - 1) ≤ dmaMask := by
  constructor
  · intro hfound low hlow
    replace hfound := hfound (by rw [hlow]; rfl)
    refine ⟨fun hfirst => ?_, fun high hwide hhigh => ?_⟩
    · exact ((allocCoherent_within (allocWithMask_low hlow (hfirst.imp_left Nat.le_of_eq))).mp hfound).1
    · exact (allocCoherent_within (allocWithMask_high (by omega) hhigh)).mp hfound
  · intro hpasses hsome
    obtain ⟨low, hlow⟩ := Option.isSome_iff_exists.mp hsome
    obtain ⟨hfirst, hsecond⟩ := hpasses low hlow
    by_cases hpicks : dmaMask = u32Max ∨ heaps s layout .high = none
    · have hend := phys_add_le_u32Max hmem hs (hanswers .low low hlow) (by omega)
      exact (allocCoherent_within (allocWithMask_low hlow (hpicks.imp_left Nat.le_of_eq))).mpr
        ⟨hfirst hpicks, hend.trans hmask⟩
    · obtain ⟨hwide, hhigh⟩ := not_or.mp hpicks
      obtain ⟨high, hhigh⟩ := Option.ne_none_iff_exists'.mp hhigh
      exact (allocCoherent_within (allocWithMask_high (by omega) hhigh)).mpr (hsecond high hwide hhigh)

/-- Heaps with a free page each, below 4 GiB and above 8 GiB. -/
def twoPages : Heaps := fun _ _ heap =>
  match heap with
  | .low => some 0x10000000
  | .high => some 0x200000000

def twoRegions : List (Range Nat) := [⟨0x10000000, 0x20000000⟩, ⟨0x200000000, 0x300000000⟩]

def twoAdded : History := twoRegions.foldl (fun s r => s.addMemoryRegion id r) History.empty

theorem reachable_twoAdded : Reachable id twoRegions twoAdded :=
  (Relation.ReflTransGen.single (.addMemoryRegion (by decide))).tail (.addMemoryRegion (by decide))

theorem answers_twoPages : twoPages.Answers twoAdded ⟨4096, 4096, by decide⟩ := by
  intro heap ptr h
  cases heap with
  | low =>
    obtain rfl := Option.some.inj h
    exact ⟨⟨0x10000000, 0x20000000⟩, by decide, by decide, by decide⟩
  | high =>
    obtain rfl := Option.some.inj h
    exact ⟨⟨0x200000000, 0x300000000⟩, by decide, by decide, by decide⟩

/-- A 32-bit mask gets the low page. -/
theorem found_iff_low : Found id twoPages u32Max ⟨4096, 4096, by decide⟩ twoAdded ⟨fun _ => none, fun _ => 0⟩ := by
  refine (found_iff (fun r _ v hge _ => (Nat.add_sub_cancel' hge).symm) reachable_twoAdded answers_twoPages
    le_rfl).mpr fun low hlow => ⟨fun _ => ?_, fun high hwide => absurd rfl hwide⟩
  obtain rfl := Option.some.inj hlow
  decide

/-- A 33-bit mask gets nothing: the high page is above it, and the low page is not tried. -/
theorem low_page_not_found :
    Reachable id twoRegions twoAdded ∧ twoPages.Answers twoAdded ⟨4096, 4096, by decide⟩ ∧
      twoPages twoAdded ⟨4096, 4096, by decide⟩ .low = some 0x10000000 ∧
      (allocCoherent id twoPages (2 ^ 33 - 1) ⟨4096, 4096, by decide⟩
        (twoAdded, ⟨fun _ => none, fun _ => 0⟩)).1 = none :=
  ⟨reachable_twoAdded, answers_twoPages, rfl, by decide⟩

end KernelDmaOp

end Sparreal.Kernel
