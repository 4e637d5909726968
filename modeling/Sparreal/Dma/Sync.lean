import Sparreal.Lib.Cache
import Sparreal.Dma.Def

/-!
# DMA synchronisation

`confirm_write` and `prepare_read` of `dma-api/src/osal/mod.rs` over memory behind a write-back cache, and the
functions of `map_single.rs` that call them. A mapping may have a bounce buffer: the device then reaches that
buffer, and the CPU keeps to its own.

`prepare_read` invalidates the buffer the device wrote and copies from there. `confirm_write` copies to the
bounce buffer but flushes the buffer of the CPU, so without a bounce buffer the device sees what was written,
and with one it need not (`synchronised_iff`).
-/

namespace Sparreal.Dma

abbrev Memory := CachedMemory UInt8

def prepareRead (h : DmaMapHandle) (offset size : Nat) (direction : DmaDirection) (s : Memory) : Memory :=
  if direction = .fromDevice ∨ direction = .bidirectional then
    let originPtr := h.cpuAddr + offset
    match h.mapAllocVirt with
    | some virt =>
      if virt ≠ h.cpuAddr then
        let mapPtr := virt + offset
        (s.invalidate mapPtr size).copy originPtr mapPtr size
      else s.invalidate originPtr size
    | none => s.invalidate originPtr size
  else s

def confirmWrite (h : DmaMapHandle) (offset size : Nat) (direction : DmaDirection) (s : Memory) : Memory :=
  if direction = .toDevice ∨ direction = .bidirectional then
    let ptr := h.cpuAddr + offset
    let s :=
      match h.mapAllocVirt with
      | some virt => if virt ≠ h.cpuAddr then s.copy (virt + offset) ptr size else s
      | none => s
    s.flush ptr size
  else s

/-- `SArrayPtr::copy_from_slice`, with the bytes of the slice; `none` is the panic. -/
def copyFromSlice (h : DmaMapHandle) (direction : DmaDirection) (src : List UInt8) (s : Memory) :
    Option Memory :=
  if src.length ≤ h.size then some (confirmWrite h 0 h.size direction (s.write h.cpuAddr src)) else none

/-- `SArrayPtr::to_vec`: the bytes of the vector, for elements of `elemSize` bytes. -/
def toVec (h : DmaMapHandle) (elemSize : Nat) (direction : DmaDirection) (s : Memory) : List UInt8 × Memory :=
  let s := prepareRead h 0 h.size direction s
  (s.read h.cpuAddr (h.size / elemSize * elemSize), s)

/-! ### With and without a bounce buffer -/

/-- The mapping has a buffer of its own for the device. -/
def DmaMapHandle.Bounced (h : DmaMapHandle) : Prop := ∃ virt, h.mapAllocVirt = some virt ∧ virt ≠ h.cpuAddr

def DmaMapHandle.deviceBuffer (h : DmaMapHandle) : Nat := h.mapAllocVirt.getD h.cpuAddr

/-- A mapping that is set up: the bus leads the device to its buffer, and a bounce buffer does not overlap
the buffer of the CPU. -/
structure Mapping where
  handle : DmaMapHandle
  bus : Nat → Nat
  reaches : ∀ i < handle.size, bus (handle.dmaAddr + i) = handle.deviceBuffer + i
  apart : handle.Bounced → handle.deviceBuffer + handle.size ≤ handle.cpuAddr ∨
    handle.cpuAddr + handle.size ≤ handle.deviceBuffer

section Handle

variable {h : DmaMapHandle} {offset size : Nat} {direction : DmaDirection} {s : Memory}

theorem deviceBuffer_of_not_bounced (hb : ¬ h.Bounced) : h.deviceBuffer = h.cpuAddr := by
  rw [DmaMapHandle.deviceBuffer]
  cases hv : h.mapAllocVirt with
  | none => rfl
  | some virt => exact not_not.mp fun hne => hb ⟨virt, hv, hne⟩

theorem prepareRead_of_bounced (hd : direction = .fromDevice ∨ direction = .bidirectional) (hb : h.Bounced) :
    prepareRead h offset size direction s =
      (s.invalidate (h.deviceBuffer + offset) size).copy (h.cpuAddr + offset) (h.deviceBuffer + offset) size := by
  obtain ⟨virt, hv, hne⟩ := hb
  simp [prepareRead, DmaMapHandle.deviceBuffer, hd, hv, hne]

theorem prepareRead_of_not_bounced (hd : direction = .fromDevice ∨ direction = .bidirectional)
    (hb : ¬ h.Bounced) : prepareRead h offset size direction s = s.invalidate (h.cpuAddr + offset) size := by
  rw [prepareRead, if_pos hd]
  cases hv : h.mapAllocVirt with
  | none => rfl
  | some virt => exact if_neg fun hne => hb ⟨virt, hv, hne⟩

theorem confirmWrite_of_bounced (hd : direction = .toDevice ∨ direction = .bidirectional) (hb : h.Bounced) :
    confirmWrite h offset size direction s =
      (s.copy (h.deviceBuffer + offset) (h.cpuAddr + offset) size).flush (h.cpuAddr + offset) size := by
  obtain ⟨virt, hv, hne⟩ := hb
  simp [confirmWrite, DmaMapHandle.deviceBuffer, hd, hv, hne]

theorem confirmWrite_of_not_bounced (hd : direction = .toDevice ∨ direction = .bidirectional)
    (hb : ¬ h.Bounced) : confirmWrite h offset size direction s = s.flush (h.cpuAddr + offset) size := by
  rw [confirmWrite, if_pos hd]
  cases hv : h.mapAllocVirt with
  | none => rfl
  | some virt =>
    simp only
    rw [if_neg fun hne => hb ⟨virt, hv, hne⟩]

end Handle

/-! ### What the other side sees -/

/-- What the CPU writes and confirms the device reads, and what the device writes the CPU reads after
`prepare_read`, at every offset inside the mapping. -/
structure Synchronised (M : Mapping) : Prop where
  toDevice : ∀ (s : Memory) (offset : Nat) (bytes : List UInt8) (direction : DmaDirection),
    offset + bytes.length ≤ M.handle.size → direction = .toDevice ∨ direction = .bidirectional →
    ∀ i b, bytes[i]? = some b →
      (confirmWrite M.handle offset bytes.length direction
        (s.write (M.handle.cpuAddr + offset) bytes)).memory (M.bus (M.handle.dmaAddr + (offset + i))) = b
  fromDevice : ∀ (s : Memory) (offset : Nat) (bytes : List UInt8) (direction : DmaDirection),
    offset + bytes.length ≤ M.handle.size → direction = .fromDevice ∨ direction = .bidirectional →
    ∀ i b, bytes[i]? = some b →
      (prepareRead M.handle offset bytes.length direction
        (s.deviceWrite M.bus (M.handle.dmaAddr + offset) bytes)).view (M.handle.cpuAddr + (offset + i)) = b

section Mapping

variable {M : Mapping} {offset size : Nat} {direction : DmaDirection} {i : Nat}

theorem Mapping.memory_deviceWrite (s : Memory) {bytes : List UInt8} (hin : offset + bytes.length ≤ M.handle.size)
    {b : UInt8} (hb : bytes[i]? = some b) :
    (s.deviceWrite M.bus (M.handle.dmaAddr + offset) bytes).memory (M.handle.deviceBuffer + (offset + i)) = b := by
  rw [← Nat.add_assoc]
  refine CachedMemory.memory_deviceWrite (fun j hj => ?_) hb
  rw [Nat.add_assoc, M.reaches _ (by omega), Nat.add_assoc]

/-- After `prepare_read` the CPU reads the memory of the device's buffer, with and without a bounce buffer. -/
theorem prepareRead_view (M : Mapping) (s : Memory) (hin : offset + size ≤ M.handle.size)
    (hd : direction = .fromDevice ∨ direction = .bidirectional) (hi : i < size) :
    (prepareRead M.handle offset size direction s).view (M.handle.cpuAddr + (offset + i)) =
      s.memory (M.handle.deviceBuffer + (offset + i)) := by
  by_cases hbounced : M.handle.Bounced
  · have hapart := M.apart hbounced
    rw [prepareRead_of_bounced hd hbounced, CachedMemory.view_copy (by omega), if_pos (by omega),
      CachedMemory.view_invalidate, if_pos (by omega)]
    congr 1
    omega
  · rw [prepareRead_of_not_bounced hd hbounced, CachedMemory.view_invalidate, if_pos (by omega),
      deviceBuffer_of_not_bounced hbounced]

/-- Without a bounce buffer the device reads after `confirm_write` what the CPU reads. -/
theorem confirmWrite_memory (M : Mapping) (s : Memory) (hbounced : ¬ M.handle.Bounced)
    (hin : offset + size ≤ M.handle.size) (hd : direction = .toDevice ∨ direction = .bidirectional) (hi : i < size) :
    (confirmWrite M.handle offset size direction s).memory (M.bus (M.handle.dmaAddr + (offset + i))) =
      s.view (M.handle.cpuAddr + (offset + i)) := by
  rw [M.reaches _ (by omega), deviceBuffer_of_not_bounced hbounced, confirmWrite_of_not_bounced hd hbounced,
    CachedMemory.memory_flush, if_pos (by omega)]

theorem confirmWrite_bounced_memory (M : Mapping) (s : Memory) (hbounced : M.handle.Bounced)
    (hin : offset + size ≤ M.handle.size) (hd : direction = .toDevice ∨ direction = .bidirectional) (hi : i < size) :
    (confirmWrite M.handle offset size direction s).memory (M.bus (M.handle.dmaAddr + (offset + i))) =
      s.memory (M.handle.deviceBuffer + (offset + i)) := by
  have hapart := M.apart hbounced
  rw [M.reaches _ (by omega), confirmWrite_of_bounced hd hbounced, CachedMemory.memory_flush, if_neg (by omega),
    CachedMemory.memory_copy]

end Mapping

/-- Both sides see what the other one wrote exactly if the mapping has no bounce buffer, or is empty. -/
theorem synchronised_iff (M : Mapping) : Synchronised M ↔ ¬ M.handle.Bounced ∨ M.handle.size = 0 := by
  constructor
  · intro hsync
    by_contra hnot
    obtain ⟨hbounced, hsize⟩ := not_or.mp hnot
    have hbounced := not_not.mp hbounced
    -- one byte, over memory that holds another
    have hin : 0 + [(1 : UInt8)].length ≤ M.handle.size := show 0 + 1 ≤ M.handle.size by omega
    have hread := hsync.toDevice ⟨fun _ => none, fun _ => 0⟩ 0 [1] .toDevice hin (.inl rfl) 0 1 rfl
    rw [confirmWrite_bounced_memory M _ hbounced hin (.inl rfl) Nat.one_pos, CachedMemory.memory_write] at hread
    exact absurd hread (show (0 : UInt8) ≠ 1 by decide)
  · intro hcond
    constructor
    · intro s offset bytes direction hin hd i b hb
      have hi : i < bytes.length := (List.getElem?_eq_some_iff.mp hb).1
      have hbounced := hcond.resolve_right (by omega)
      rw [confirmWrite_memory M _ hbounced hin hd hi, ← Nat.add_assoc, CachedMemory.view_write hb]
    · intro s offset bytes direction hin hd i b hb
      have hi : i < bytes.length := (List.getElem?_eq_some_iff.mp hb).1
      rw [prepareRead_view M _ hin hd hi, M.memory_deviceWrite s hin hb]

def bounceMapping : Mapping where
  handle := ⟨⟨8192, 0, byteLayout⟩, some 4096⟩
  bus a := a + 4096
  reaches i _ := show 0 + i + 4096 = 4096 + i by omega
  apart _ := .inl (by decide)

/-- The CPU writes 1, the device reads 0. -/
theorem not_synchronised_bounceMapping :
    (confirmWrite bounceMapping.handle 0 1 .toDevice
        (CachedMemory.write 8192 [1] ⟨fun _ => none, fun _ => 0⟩)).memory (bounceMapping.bus 0) = 0 ∧
      ¬ Synchronised bounceMapping := by
  refine ⟨by decide +kernel, fun hsync => ?_⟩
  have hread := hsync.toDevice ⟨fun _ => none, fun _ => 0⟩ 0 [1] .toDevice (by decide) (.inl rfl) 0 1 rfl
  exact absurd hread (by decide +kernel)

end Sparreal.Dma
