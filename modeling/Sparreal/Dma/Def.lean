import Mathlib.Algebra.Group.Nat.Defs
import Mathlib.Data.Nat.Log
import Mathlib.Tactic.Common

/-!
# DMA handles

The types of `dma-api/src/def.rs` and `core::alloc::Layout`. Addresses are numbers: `cpu_addr` and
`map_alloc_virt` are pointers of the CPU, `dma_addr` is what the device puts on the bus.
-/

namespace Sparreal.Dma

inductive DmaDirection where
  | toDevice
  | fromDevice
  | bidirectional
  deriving DecidableEq, Repr

/-- What `Layout::from_size_align` asks of its arguments: the alignment is a power of two, and the size
rounded up to it is at most `isize::MAX`. -/
def ValidLayout (size align : Nat) : Prop := align = 2 ^ Nat.log 2 align ∧ size + align ≤ 2 ^ 63

instance (size align : Nat) : Decidable (ValidLayout size align) := inferInstanceAs (Decidable (_ ∧ _))

structure Layout where
  size : Nat
  align : Nat
  valid : ValidLayout size align
  deriving DecidableEq

namespace Layout

def fromSizeAlign (size align : Nat) : Option Layout :=
  if h : ValidLayout size align then some ⟨size, align, h⟩ else none

theorem align_pos (l : Layout) : 0 < l.align := by
  rw [l.valid.1]
  exact Nat.two_pow_pos _

theorem fromSizeAlign_eq_some {size align : Nat} {l : Layout} (h : fromSizeAlign size align = some l) :
    l.size = size ∧ l.align = align := by
  rw [fromSizeAlign] at h
  split_ifs at h
  obtain rfl := Option.some.inj h
  exact ⟨rfl, rfl⟩

end Layout

inductive DmaError where
  | noMemory
  | layoutError
  | dmaMaskNotMatch (addr mask : Nat)
  | alignMismatch (required address : Nat)
  | nullPointer
  | zeroSizedBuffer
  deriving DecidableEq, Repr

/-- The layout of `u8`. -/
def byteLayout : Layout := ⟨1, 1, by decide⟩

structure DmaHandle where
  cpuAddr : Nat
  dmaAddr : Nat
  layout : Layout
  deriving DecidableEq

def DmaHandle.size (h : DmaHandle) : Nat := h.layout.size

def DmaHandle.align (h : DmaHandle) : Nat := h.layout.align

structure DmaMapHandle extends DmaHandle where
  mapAllocVirt : Option Nat
  deriving DecidableEq

end Sparreal.Dma
