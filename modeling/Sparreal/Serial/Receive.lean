import Sparreal.Lib.Delivery

/-!
# Receiving on a serial line (`rdif-serial`)

The reader and the interrupt handler share one `SRecv`: the receiver of the hardware and a FIFO of 64 entries in
front of it. The handler empties the receiver into the FIFO; the reader takes from the FIFO and, when it is empty,
from the receiver.

The receiver is any `TReciever`. `SRecv` also has a history, which no function reads: what was taken from the hardware
and what the reader has been given. An item carries its place in the sequence of the hardware with it (`Numbered`). What
a bulk read takes and what it hands over are two things: a receiver may keep an error to itself
(`TReciever.HandsOver`).
-/

namespace Sparreal.Serial

open Delivery

inductive TransferError where
  | overrun (byte : UInt8)
  | parity
  | framing
  | breakCondition
  | closed
  deriving DecidableEq, Repr

/-- `Result<u8, TransferError>`. -/
abbrev Item := Except TransferError UInt8

structure TransBytesError where
  bytesTransferred : Nat
  kind : TransferError
  deriving DecidableEq, Repr

def handedOver (result : Except TransBytesError Nat) (bytes : List UInt8) : List Item :=
  match result with
  | .ok n => (bytes.take n).map .ok
  | .error e => (bytes.take e.bytesTransferred).map .ok ++ [.error e.kind]

theorem take_succ_set {bytes : List UInt8} {n : Nat} (h : n < bytes.length) (b : UInt8) :
    (bytes.set n b).take (n + 1) = bytes.take n ++ [b] := by
  rw [List.take_add_one, List.take_set_of_le le_rfl, List.getElem?_set_self h]
  rfl

/-- `TReciever`, on states `ρ`; a buffer is passed as its contents. -/
structure TReciever (ρ : Type) where
  readByte : ρ → Option Item × ρ
  readBytes : ρ → List UInt8 → (Except TransBytesError Nat × List UInt8) × ρ
  /-- What `read_bytes` takes from the hardware (history). -/
  taken : ρ → List UInt8 → List Item

/-- The contract of `read_bytes` in a state: it hands over all it takes. -/
def TReciever.HandsOver {ρ : Type} (R : TReciever ρ) (r : ρ) : Prop :=
  ∀ bytes, handedOver (R.readBytes r bytes).1.1 (R.readBytes r bytes).1.2 = R.taken r bytes

/-- What a loop takes from the hardware that makes `left` reads at most and goes on after some of the items only. -/
def takes {ρ : Type} (readByte : ρ → Option Item × ρ) (goesOn : Item → Bool) : Nat → ρ → List Item
  | 0, _ => []
  | left + 1, r =>
    match readByte r with
    | (none, _) => []
    | (some x, r) => x :: if goesOn x then takes readByte goesOn left r else []

/-- What the receiver has to hand out, up to `fuel` items. -/
def TReciever.waiting {ρ : Type} (R : TReciever ρ) : Nat → ρ → List Item := takes R.readByte fun _ => true

/-- The loop of the default `TReciever::read_bytes`; the first argument is what is left of the buffer. -/
def readLoop {ρ : Type} (readByte : ρ → Option Item × ρ) :
    Nat → Nat → List UInt8 → ρ → (Except TransBytesError Nat × List UInt8) × ρ
  | 0, readCount, bytes, r => ((.ok readCount, bytes), r)
  | left + 1, readCount, bytes, r =>
    match readByte r with
    | (some (.ok b), r) => readLoop readByte left (readCount + 1) (bytes.set readCount b) r
    | (some (.error e), r) => ((.error ⟨readCount, e⟩, bytes), r)
    | (none, r) => ((.ok readCount, bytes), r)

/-- `heapless::Deque<_, N>`. -/
structure Deque (α : Type) (capacity : Nat) where
  items : List α
  length_le : items.length ≤ capacity

namespace Deque

variable {α : Type} {capacity : Nat}

def new : Deque α capacity := ⟨[], Nat.zero_le _⟩

theorem length_push_le (d : Deque α capacity) (x : α) (h : d.items.length < capacity) :
    (d.items ++ [x]).length ≤ capacity := by
  rw [List.length_append]
  exact h

/-- `Deque::push_back`: a full deque gives the item back. -/
def pushBack (d : Deque α capacity) (x : α) : Except α (Deque α capacity) :=
  if h : d.items.length < capacity then .ok ⟨d.items ++ [x], d.length_push_le x h⟩ else .error x

def popFront : Deque α capacity → Option (α × Deque α capacity)
  | ⟨[], _⟩ => none
  | ⟨x :: items, h⟩ => some (x, ⟨items, (Nat.le_succ _).trans h⟩)

end Deque

/-- `SRecv`, the `RecieverInner` in it, and the history. -/
structure SRecv (ρ : Type) where
  inner : ρ
  fifo : Deque (Numbered Item) 64
  produced : List Item
  delivered : List (Numbered Item)

namespace SRecv

variable {ρ : Type} (R : TReciever ρ)

/-- The shared receiver that `SerialDyn::_new` makes. -/
def new (r : ρ) : SRecv ρ := ⟨r, .new, [], []⟩

/-- `SRecv::fifo_push`: an item a full FIFO gives back is dropped. -/
def fifoPush (byte : Numbered Item) (s : SRecv ρ) : SRecv ρ :=
  match s.fifo.pushBack byte with
  | .ok fifo => { s with fifo := fifo }
  | .error _ => s

def fifoPop (s : SRecv ρ) : Option (Numbered Item) × SRecv ρ :=
  match s.fifo.popFront with
  | none => (none, s)
  | some (byte, fifo) => (some byte, { s with fifo := fifo })

def readByte (s : SRecv ρ) : Option (Numbered Item) × SRecv ρ :=
  match R.readByte s.inner with
  | (none, r) => (none, { s with inner := r })
  | (some byte, r) => (some ⟨s.produced.length, byte⟩, { s with inner := r, produced := s.produced ++ [byte] })

def readBytes (bytes : List UInt8) (s : SRecv ρ) : (Except TransBytesError Nat × List UInt8) × SRecv ρ :=
  let taken := R.taken s.inner bytes
  let ((result, bytes), r) := R.readBytes s.inner bytes
  ((result, bytes), { s with inner := r, produced := s.produced ++ taken })

/-- The reader has been given `items` (history). -/
def deliver (items : List (Numbered Item)) (s : SRecv ρ) : SRecv ρ := { s with delivered := s.delivered ++ items }

end SRecv

namespace Reciever

variable {ρ : Type} (R : TReciever ρ)

def readByte (s : SRecv ρ) : Option Item × SRecv ρ :=
  match s.fifoPop with
  | (some b, s) => (some b.item, s.deliver [b])
  | (none, s) =>
    match s.readByte R with
    | (some b, s) => (some b.item, s.deliver [b])
    | (none, s) => (none, s)

/-- The loop of `Reciever::read_bytes` over the FIFO; the first argument is what is left of the buffer. -/
def popLoop : Nat → Nat → List UInt8 → SRecv ρ → (Except TransBytesError Nat × List UInt8) × SRecv ρ
  | 0, n, bytes, s => ((.ok n, bytes), s)
  | left + 1, n, bytes, s =>
    match s.fifoPop with
    | (some ⟨position, .ok b⟩, s) => popLoop left (n + 1) (bytes.set n b) (s.deliver [⟨position, .ok b⟩])
    | (some ⟨position, .error e⟩, s) => ((.error ⟨n, e⟩, bytes), s.deliver [⟨position, .error e⟩])
    | (none, s) => ((.ok n, bytes), s)

def readBytes (bytes : List UInt8) (s : SRecv ρ) : (Except TransBytesError Nat × List UInt8) × SRecv ρ :=
  match popLoop bytes.length 0 bytes s with
  | ((.error e, bytes), s) => ((.error e, bytes), s)
  | ((.ok n, bytes), s) =>
    if n = bytes.length then ((.ok n, bytes), s)
    else
      match s.readBytes R (bytes.drop n) with
      | ((.ok m, rest), s') =>
        ((.ok (n + m), bytes.take n ++ rest), s'.deliver (number s.produced.length (handedOver (.ok m) rest)))
      | ((.error e, rest), s') =>
        ((.error ⟨n + e.bytesTransferred, e.kind⟩, bytes.take n ++ rest),
          s'.deliver (number s.produced.length (handedOver (.error e) rest)))

end Reciever

structure InterruptMask where
  rxAvailable : Bool
  txEmpty : Bool
  deriving DecidableEq, Repr

namespace IrqHandler

variable {ρ : Type} (R : TReciever ρ)

/-- The loop of `IrqHandler::clean_interrupt_status`, left when the receiver has nothing more. -/
def drain : Nat → SRecv ρ → Option (SRecv ρ)
  | 0, _ => none
  | fuel + 1, s =>
    match s.readByte R with
    | (some b, s) => drain fuel (s.fifoPush b)
    | (none, s) => some s

/-- `IrqHandler::clean_interrupt_status`, where the handler of the hardware reports `status`. -/
def cleanInterruptStatus (status : InterruptMask) (fuel : Nat) (s : SRecv ρ) : Option (InterruptMask × SRecv ρ) :=
  if status.rxAvailable then (drain R fuel s).map fun s => (status, s) else some (status, s)

end IrqHandler

end Sparreal.Serial
