import Sparreal.Lib.Exec
import Sparreal.Lib.SortedMap
import Sparreal.Dma.Buffers
import Sparreal.Eth.Ring

/-!
# Queues of a network interface

`TxQueue` and `RxQueue` of `rd-net/src/lib.rs`, over any `ITxQueue` or `IRxQueue`. Both have a pool of DMA
buffers and a map of those that the device was given, by their bus addresses. The device is known by what
`submit` and `reclaim` answer; what it was given and has not returned is recorded beside the fields of the
source.
-/

namespace Sparreal.Eth

open Dma (DeviceDma DmaOp World DCommon Pool Fresh DmaError DmaDirection)

/-! ### The model -/

/-- `From<DmaError> for NetError`. -/
def NetError.ofDmaError : DmaError → NetError
  | .noMemory => .noMemory
  | e => .otherDma e

/-- Why a call stops: it returns `Err`, or it panics. -/
inductive Stop where
  | err (e : NetError)
  | panic
  deriving DecidableEq, Repr

/-- `ITxQueue` and `IRxQueue`, over the state `ι` of what is behind them. What `reclaim` returns with an address is
the length of a packet, or nothing. -/
structure IQueue (ι β : Type) where
  submit : ι → Nat → Nat → Except NetError Unit × ι
  reclaim : ι → Option (Nat × β) × ι

abbrev ITxQueue (ι : Type) := IQueue ι Unit

abbrev IRxQueue (ι : Type) := IQueue ι Nat

/-- `TxQueue` and `RxQueue`. -/
structure Queue (ι σ : Type) where
  interface : ι
  pool : Pool σ
  inflight : SortedMap Nat DCommon
  config : QueueConfig
  /-- The addresses that `submit` has accepted and `reclaim` has not returned. -/
  device : List Nat
  submitted : Nat

variable {ι β σ : Type}

/-- `make_pool`, and the rest of a new queue. -/
def Queue.create (os : DmaOp σ) (config : QueueConfig) (direction : DmaDirection) (interface : ι) (w : World σ) :
    Except NetError (Queue ι σ) :=
  match Dma.Layout.fromSizeAlign config.bufSize (max config.align 1) with
  | none => .error (.other "invalid queue layout")
  | some layout =>
    .ok ⟨interface, Dma.newPool ⟨os, config.dmaMask⟩ layout direction config.ringSize w, .empty, config, [], 0⟩

namespace Queue

def capacity (q : Queue ι σ) : Nat := q.config.ringSize - 1

/-- `interface.submit`. -/
def submit (hw : IQueue ι β) (busAddr len : Nat) : Exec Stop (Queue ι σ) Unit := fun q =>
  match hw.submit q.interface busAddr len with
  | (.ok _, i) => (.ok (), { q with
      interface := i, device := q.device ++ [busAddr], submitted := q.submitted + 1 })
  | (.error e, i) => (.error (.err e), { q with interface := i })

/-- `interface.reclaim`. -/
def reclaim (hw : IQueue ι β) : Exec Stop (Queue ι σ) (Option (Nat × β)) := fun q =>
  match hw.reclaim q.interface with
  | (none, i) => (.ok none, { q with interface := i })
  | (some r, i) => (.ok (some r), { q with interface := i, device := q.device.erase r.1 })

/-- `inflight.remove`. -/
def remove (busAddr : Nat) : Exec Stop (Queue ι σ) (Option DCommon) := fun q =>
  (.ok (q.inflight.remove busAddr).1, { q with inflight := (q.inflight.remove busAddr).2 })

/-- A `DBuff` is dropped. -/
def dropBuff (d : DeviceDma σ) (buff : DCommon) (q : Queue ι σ) : Queue ι σ :=
  { q with pool := Dma.DBuff.drop d buff q.pool }

/-- `inflight.insert`. What had the address before is dropped. -/
def insert (d : DeviceDma σ) (busAddr : Nat) (buff : DCommon) (q : Queue ι σ) : Queue ι σ :=
  let q' := { q with inflight := q.inflight.insert busAddr buff }
  match q.inflight.get busAddr with
  | some old => q'.dropBuff d old
  | none => q'

/-- `pool.alloc`. -/
def alloc (d : DeviceDma σ) : Exec Stop (Queue ι σ) DCommon := fun q =>
  match Dma.DArrayPool.alloc d q.pool with
  | (.ok buff, pool) => (.ok buff, { q with pool := pool })
  | (.error (.err e), pool) => (.error (.err (.ofDmaError e)), { q with pool := pool })
  | (.error .panic, pool) => (.error .panic, { q with pool := pool })

/-- `interface.reclaim` and `inflight.remove`, with the text for an address that is not there. -/
def reclaimBuffer (hw : IQueue ι β) (unknown : String) : Exec Stop (Queue ι σ) (Option (DCommon × β)) := do
  match ← reclaim hw with
  | none => return none
  | some (busAddr, x) =>
    match ← remove busAddr with
    | none => .throw (.err (.other unknown))
    | some buff => return some (buff, x)

/-- The queue is dropped: the pool first, then the buffers of the map, in the order of their keys. -/
def drop (d : DeviceDma σ) (q : Queue ι σ) : Queue ι σ :=
  { q with
    pool := q.inflight.values.foldl (fun pool buff => Dma.DBuff.drop d buff pool) (Dma.DArrayPool.drop d q.pool)
    inflight := .empty }

def access (f : Dma.Memory → Dma.Memory) (q : Queue ι σ) : Queue ι σ :=
  { q with pool := { q.pool with world := { q.pool.world with memory := f q.pool.world.memory } } }

end Queue

inductive Life where
  /-- In the loop of `prefill`. -/
  | filling
  | running
  | dropped
  | panicked
  deriving DecidableEq, Repr

/-! ### Sending -/

/-- `TxPending`, without the reference to its queue. -/
structure TxPending where
  len : Nat
  busAddr : Nat
  buff : Option DCommon

namespace TxQueue

open Queue

def reclaimBounded (d : DeviceDma σ) (hw : ITxQueue ι) : Nat → Exec Stop (Queue ι σ) Nat
  | 0 => pure 0
  | limit + 1 => do
    match ← reclaimBuffer hw "reclaimed unknown tx buffer" with
    | none => return 0
    | some (buff, _) =>
      Exec.modify (dropBuff d buff)
      let reclaimed ← reclaimBounded d hw limit
      return reclaimed + 1

/-- `DArray::write_with`, with what the closure leaves in the slice. -/
def writeWith (buff : DCommon) (len : Nat) (f : List UInt8 → List UInt8) : Exec Stop (Queue ι σ) Unit := fun q =>
  if len ≤ buff.handle.size then
    (.ok (), q.access fun m => Dma.confirmWrite buff.handle 0 len buff.direction
      (m.write buff.handle.cpuAddr ((f (m.read buff.handle.cpuAddr len)).take len)))
  else (.error .panic, q)

def prepareSend (d : DeviceDma σ) (hw : ITxQueue ι) (len : Nat) (f : List UInt8 → List UInt8) :
    Exec Stop (Queue ι σ) TxPending := do
  if (← Exec.gets (·.config.bufSize)) < len then .throw (.err (.other "tx packet too large"))
  else
    let _ ← reclaimBounded d hw (max (← Exec.gets capacity) 1)
    let buff ← alloc d
    writeWith buff len f
    return ⟨len, buff.handle.dmaAddr, some buff⟩

/-- `try_submit`, with what it leaves of the packet. -/
def trySubmit (d : DeviceDma σ) (hw : ITxQueue ι) (p : TxPending) : Exec Stop (Queue ι σ) TxPending := do
  let _ ← reclaimBounded d hw (max (← Exec.gets capacity) 1)
  submit hw p.busAddr p.len
  match p.buff with
  | none => .throw .panic
  | some buff =>
    Exec.modify (insert d p.busAddr buff)
    return { p with buff := none }

/-- A `TxPending` is dropped. -/
def dropPending (d : DeviceDma σ) (p : TxPending) (q : Queue ι σ) : Queue ι σ :=
  match p.buff with
  | none => q
  | some buff => q.dropBuff d buff

end TxQueue

/-! ### Receiving -/

/-- `RxPacket`, without the reference to its queue. Its buffer is there until the packet is gone. -/
structure RxPacket where
  len : Nat
  buff : DCommon

namespace RxQueue

open Queue

/-- `submit_buffer`. A buffer that is not accepted is dropped. -/
def submitBuffer (d : DeviceDma σ) (hw : IRxQueue ι) (buff : DCommon) : Exec Stop (Queue ι σ) Unit := fun q =>
  match Queue.submit hw buff.handle.dmaAddr (min q.config.bufSize buff.handle.size) q with
  | (.ok _, q) => (.ok (), q.insert d buff.handle.dmaAddr buff)
  | (.error e, q) => (.error e, q.dropBuff d buff)

/-- What `prefill` makes of the answer: whether there is another turn. -/
def prefillBuffer (d : DeviceDma σ) (hw : IRxQueue ι) (buff : DCommon) : Exec Stop (Queue ι σ) Bool := fun q =>
  match submitBuffer d hw buff q with
  | (.ok _, q) => (.ok true, q)
  | (.error (.err .retry), q) => (.ok false, q)
  | (.error e, q) => (.error e, q)

/-- One turn of the loop of `prefill`. -/
def prefillStep (d : DeviceDma σ) (hw : IRxQueue ι) : Exec Stop (Queue ι σ) Bool := do
  if (← Exec.gets fun q => q.inflight.size) < (← Exec.gets capacity) then
    let buff ← alloc d
    prefillBuffer d hw buff
  else return false

def reclaimPacket (hw : IRxQueue ι) : Exec Stop (Queue ι σ) (Option RxPacket) := do
  match ← reclaimBuffer hw "reclaimed unknown rx buffer" with
  | none => return none
  | some (buff, len) =>
    return some ⟨min (min len (← Exec.gets (·.config.bufSize))) buff.handle.size, buff⟩

def tryReceive (hw : IRxQueue ι) (q : Queue ι σ) : Option RxPacket × Queue ι σ :=
  match reclaimPacket hw q with
  | (.ok packet, q) => (packet, q)
  | (.error _, q) => (none, q)

/-- `DArray::read_with`, with what the closure sees. -/
def readWith (buff : DCommon) (len : Nat) : Exec Stop (Queue ι σ) (List UInt8) := fun q =>
  if len ≤ buff.handle.size then
    let q := q.access (Dma.prepareRead buff.handle 0 len buff.direction)
    (.ok (q.pool.world.memory.read buff.handle.cpuAddr len), q)
  else (.error .panic, q)

/-- A `RxPacket` is dropped. -/
def dropPacket (d : DeviceDma σ) (hw : IRxQueue ι) (p : RxPacket) (q : Queue ι σ) : Queue ι σ :=
  (submitBuffer d hw p.buff q).2

/-- `RxPacket::consume`, with what the closure sees. -/
def consume (d : DeviceDma σ) (hw : IRxQueue ι) (p : RxPacket) : Exec Stop (Queue ι σ) (List UInt8) := do
  let bytes ← readWith p.buff p.len
  Exec.modify (dropPacket d hw p)
  return bytes

end RxQueue

end Sparreal.Eth
