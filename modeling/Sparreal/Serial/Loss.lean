import Sparreal.Serial.Pl011
import Sparreal.Lib.Machine

/-!
# What a serial reader can miss

Interrupts and reads one after another, over any receiver. Everything taken from the hardware reaches the reader in
order, whichever of the two ways it takes, unless the handler finds no room for it in the FIFO, or a bulk read of the
receiver keeps it (`losesNothingSilently_of_safe`). What is lost so is dropped, and nothing tells the reader.

The invariant is `SRecv.Ordered`: what was delivered and, behind it, what waits in the FIFO are all that was taken. A
read that goes on to the receiver keeps it because the FIFO is empty then.
-/

namespace Sparreal.Serial

open Delivery

variable {ρ : Type} {R : TReciever ρ}

/-! ### The steps -/

namespace SRecv

def Ordered (s : SRecv ρ) : Prop := s.delivered ++ s.fifo.items = number 0 s.produced

theorem Ordered.taken {s : SRecv ρ} (h : s.Ordered) (items : List Item) :
    s.delivered ++ s.fifo.items ++ number s.produced.length items = number 0 (s.produced ++ items) := by
  rw [h, number_append, Nat.zero_add]

theorem Ordered.fifoPush {s : SRecv ρ} (h : s.Ordered) (hroom : s.fifo.items.length < 64) (x : Item) (r : ρ) :
    (({ s with inner := r, produced := s.produced ++ [x] } : SRecv ρ).fifoPush ⟨s.produced.length, x⟩).Ordered := by
  have hkept := h.taken [x]
  rw [List.append_assoc] at hkept
  simp only [SRecv.fifoPush, Deque.pushBack, dif_pos hroom]
  exact hkept

end SRecv

variable {s s' : SRecv ρ}

inductive Event (ρ : Type) where
  /-- The receiver changes by itself, as when a byte arrives. -/
  | hardware (r : ρ)
  | interrupt (status : InterruptMask) (fuel : Nat)
  | readByte
  | readBytes (bytes : List UInt8)

/-- The shared receiver, and what the calls of the reader have returned. -/
structure World (ρ : Type) where
  recv : SRecv ρ
  received : List Item

def World.new (r : ρ) : World ρ := ⟨.new r, []⟩

def step (R : TReciever ρ) (w : World ρ) : Event ρ → Option (World ρ)
  | .hardware r => some { w with recv := { w.recv with inner := r } }
  | .interrupt status fuel =>
    (IrqHandler.cleanInterruptStatus R status fuel w.recv).map fun out => { w with recv := out.2 }
  | .readByte =>
    let (out, s) := Reciever.readByte R w.recv
    some ⟨s, w.received ++ out.toList⟩
  | .readBytes bytes =>
    let ((result, bytes), s) := Reciever.readBytes R bytes w.recv
    some ⟨s, w.received ++ handedOver result bytes⟩

/-- Nothing taken is missing, and the reader has received what was delivered. -/
structure World.Ordered (w : World ρ) : Prop where
  recv : w.recv.Ordered
  received : w.received = w.recv.delivered.map (·.item)

/-- The steps by which something can get lost: an interrupt when there is more to drain than the FIFO has room for,
and a bulk read that goes past the FIFO to a receiver that would not hand over all it takes. -/
def Hazard (R : TReciever ρ) (w : World ρ) : Event ρ → Prop
  | .interrupt status fuel =>
    status.rxAvailable = true ∧ 64 < w.recv.fifo.items.length + (R.waiting fuel w.recv.inner).length
  | .readBytes bytes => w.recv.fifo.items.length < bytes.length ∧ ¬ R.HandsOver w.recv.inner
  | _ => False

end Sparreal.Serial
