import Mathlib.Logic.Function.Basic
import Mathlib.Tactic.Common
import Sparreal.Dma.Def

/-!
# Descriptor rings of the e1000

`E1000TxQueue` and `E1000RxQueue` of `intel/src/e1000/mod.rs`. Both are a ring of descriptors, with the bus
address of every buffer in a table beside it. `submit` writes at an index of its own and takes the ring to be
full when it would catch up with the head register of the device; `reclaim` goes round at another index and
looks at nothing but the done bit of the descriptor it finds there.
-/

namespace Sparreal.Eth

/-- `NetError`. What `Other` holds is a text or an error of a DMA allocation. -/
inductive NetError where
  | notSupported
  | retry
  | noMemory
  | linkDown
  | other (message : String)
  | otherDma (e : Dma.DmaError)
  deriving DecidableEq, Repr

structure QueueConfig where
  dmaMask : Nat
  align : Nat
  bufSize : Nat
  ringSize : Nat
  deriving DecidableEq, Repr

namespace E1000

def queueSize : Nat := 256

def maxPacket : Nat := 2048

/-- `config` of both queues. -/
def config (dmaMask : Nat) : QueueConfig := ⟨dmaMask, 16, maxPacket, queueSize⟩

/-- What `TxDesc` and `RxDesc` have in common. -/
structure Desc where
  addr : Nat := 0
  length : Nat := 0
  status : Nat := 0
  deriving DecidableEq, Repr

/-- `is_done`: the bit `STATUS_DD`. -/
def Desc.isDone (d : Desc) : Bool := decide (d.status % 2 = 1)

/-- `TxDesc::new`. -/
def txDesc (addr length : Nat) : Desc := { addr := addr, length := length }

/-- `RxDesc::new`. The length is left to the device. -/
def rxDesc (addr _length : Nat) : Desc := { addr := addr }

/-- `E1000TxQueue` and `E1000RxQueue`, with the registers for the head and the tail of the ring. -/
structure Ring where
  desc : Nat → Desc := fun _ => {}
  busAddrs : Nat → Option Nat := fun _ => none
  nextSubmit : Nat := 0
  nextReclaim : Nat := 0
  /-- `TDH` or `RDH`. -/
  head : Nat := 0
  /-- `TDT` or `RDT`. -/
  tail : Nat := 0

namespace Ring

/-- `submit`, with the text of its error and its descriptor. -/
def submit (tooLarge : String) (mk : Nat → Nat → Desc) (q : Ring) (busAddr len : Nat) : Except NetError Unit × Ring :=
  if maxPacket < len then (.error (.other tooLarge), q)
  else
    let idx := q.nextSubmit
    let next := (idx + 1) % queueSize
    if next = q.head then (.error .retry, q)
    else
      (.ok (), { q with
        desc := Function.update q.desc idx (mk busAddr len)
        busAddrs := Function.update q.busAddrs idx (some busAddr)
        nextSubmit := next
        tail := next })

/-- `reclaim`, with the length in the descriptor. -/
def reclaim (q : Ring) : Option (Nat × Nat) × Ring :=
  let idx := q.nextReclaim
  if (q.desc idx).isDone then
    ((q.busAddrs idx).map fun busAddr => (busAddr, (q.desc idx).length), { q with
      nextReclaim := (idx + 1) % queueSize
      busAddrs := Function.update q.busAddrs idx none })
  else (none, q)

/-- The device moves its head on, up to the tail. -/
def advance (q : Ring) : Option Ring :=
  if q.head = q.tail then none else some { q with head := (q.head + 1) % queueSize }

/-- The device is done with a descriptor and leaves a length in it. -/
def finish (q : Ring) (idx length : Nat) : Ring :=
  let d := q.desc idx
  { q with desc := Function.update q.desc idx { d with length := length, status := d.status / 2 * 2 + 1 } }

theorem submit_eq_ok {tooLarge : String} {mk : Nat → Nat → Desc} {q q' : Ring} {busAddr len : Nat} :
    submit tooLarge mk q busAddr len = (.ok (), q') ↔
      len ≤ maxPacket ∧ (q.nextSubmit + 1) % queueSize ≠ q.head ∧
        q' = { q with
          desc := Function.update q.desc q.nextSubmit (mk busAddr len)
          busAddrs := Function.update q.busAddrs q.nextSubmit (some busAddr)
          nextSubmit := (q.nextSubmit + 1) % queueSize
          tail := (q.nextSubmit + 1) % queueSize } := by
  dsimp only [submit]
  split_ifs with hlarge hfull
  · simp [Nat.not_le.mpr hlarge]
  · simp [hfull]
  · simp [Nat.not_lt.mp hlarge, hfull, eq_comm]

theorem submit_eq_error {tooLarge : String} {mk : Nat → Nat → Desc} {q q' : Ring} {busAddr len : Nat} {e : NetError}
    (h : submit tooLarge mk q busAddr len = (.error e, q')) : q' = q := by
  dsimp only [submit] at h
  split_ifs at h
  · exact (Prod.mk.inj h).2.symm
  · exact (Prod.mk.inj h).2.symm
  · cases (Prod.mk.inj h).1

theorem reclaim_of_done {q : Ring} (h : (q.desc q.nextReclaim).isDone = true) :
    q.reclaim = ((q.busAddrs q.nextReclaim).map fun busAddr => (busAddr, (q.desc q.nextReclaim).length), { q with
      nextReclaim := (q.nextReclaim + 1) % queueSize
      busAddrs := Function.update q.busAddrs q.nextReclaim none }) :=
  if_pos h

theorem reclaim_of_not_done {q : Ring} (h : (q.desc q.nextReclaim).isDone = false) : q.reclaim = (none, q) :=
  if_neg (by simp [h])

@[simp] theorem isDone_finish (q : Ring) (idx length i : Nat) :
    ((q.finish idx length).desc i).isDone = if i = idx then true else (q.desc i).isDone := by
  show (Function.update q.desc idx _ i).isDone = _
  rw [Function.update_apply]
  split_ifs with hi
  · show decide (((q.desc idx).status / 2 * 2 + 1) % 2 = 1) = true
    exact decide_eq_true (by omega)
  · rfl

end Ring

/-- `E1000TxQueue::submit`. -/
def txSubmit (q : Ring) (busAddr len : Nat) : Except NetError Unit × Ring :=
  q.submit "tx packet too large" txDesc busAddr len

/-- `E1000TxQueue::reclaim`. -/
def txReclaim (q : Ring) : Option Nat × Ring := (q.reclaim.1.map Prod.fst, q.reclaim.2)

/-- `E1000RxQueue::submit`. -/
def rxSubmit (q : Ring) (busAddr len : Nat) : Except NetError Unit × Ring :=
  q.submit "rx buffer too large" rxDesc busAddr len

/-- `E1000RxQueue::reclaim`. -/
def rxReclaim (q : Ring) : Option (Nat × Nat) × Ring := q.reclaim

end E1000

end Sparreal.Eth
