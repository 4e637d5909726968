import Sparreal.Paging.Def
import Mathlib.Logic.Function.Basic

/-!
# Page-table frames

`Frame` of `frame.rs`: a frame is its physical address, its entries live in the machine's memory.
`as_slice()[index]` is `Frame.readEntry`; an index that `virt_to_index` returns is always inside the
table (`TableMeta.slot_lt`), so the bounds check of the slice never fails. Looking an address up
only reads memory, so `translate_recursive_with_level` is a function of the memory alone.
-/

namespace Sparreal.Paging

variable {P : Type}

/-- Code that runs on the machine and may return `Err` or panic. -/
abbrev Run (P α : Type) : Type := Exec Fault (Machine P) α

namespace Machine

def write (m : Machine P) (frame : PhysAddr) (index : Nat) (pte : P) : Machine P :=
  { m with mem := Function.update m.mem frame (Function.update (m.mem frame) index pte) }

/-- Hand out `frame`, cleared. -/
def alloc (m : Machine P) (frame : PhysAddr) (pte : P) : Machine P :=
  { m with log := .grant frame :: m.log, mem := Function.update m.mem frame (fun _ => pte) }

def refuse (m : Machine P) : Machine P := { m with log := .refuse :: m.log }

def release (m : Machine P) (frame : PhysAddr) : Machine P :=
  { m with log := .release frame :: m.log }

def flush (m : Machine P) (vaddr : Nat) : Machine P :=
  { m with flushed := vaddr :: m.flushed }

@[simp] theorem write_mem (m : Machine P) (frame : PhysAddr) (index : Nat) (pte : P) :
    (m.write frame index pte).mem =
      Function.update m.mem frame (Function.update (m.mem frame) index pte) := rfl

@[simp] theorem write_log (m : Machine P) (frame : PhysAddr) (index : Nat) (pte : P) :
    (m.write frame index pte).log = m.log := rfl

@[simp] theorem alloc_mem (m : Machine P) (frame : PhysAddr) (pte : P) :
    (m.alloc frame pte).mem = Function.update m.mem frame (fun _ => pte) := rfl

@[simp] theorem alloc_log (m : Machine P) (frame : PhysAddr) (pte : P) :
    (m.alloc frame pte).log = .grant frame :: m.log := rfl

@[simp] theorem release_log (m : Machine P) (frame : PhysAddr) :
    (m.release frame).log = .release frame :: m.log := rfl

end Machine

namespace Frame

/-- `self.as_slice()[index]`. -/
def readEntry (frame : PhysAddr) (index : Nat) : Run P P := Exec.gets fun m => m.mem frame index

/-- `self.as_slice_mut()[index] = pte`. -/
def writeEntry (frame : PhysAddr) (index : Nat) (pte : P) : Run P Unit :=
  Exec.modify fun m => m.write frame index pte

/-- `T::flush(Some(vaddr))`. -/
def flush (vaddr : Nat) : Run P Unit := Exec.modify fun m => m.flush vaddr

/-- `allocator.dealloc_frame(frame)`. -/
def deallocFrame (frame : PhysAddr) : Run P Unit := Exec.modify fun m => m.release frame

variable [PageTableEntry P]

/-- `Frame::new`: request a frame and clear it. -/
def new (A : FrameAllocator) : Run P PhysAddr := fun m =>
  match A.allocFrame m.log with
  | none => (.error (.err .noMemory), m.refuse)
  | some frame => (.ok frame, m.alloc frame zeroed)

variable (T : TableMeta P)

/-- The body of the loop of `Frame::deallocate_children`, run for the indices below `count` from
the last one down; `free` is `deallocate_recursive` one level below. -/
def deallocateChildren (free : PhysAddr → Run P Unit) (level : Nat) (frame : PhysAddr) :
    Nat → Run P Unit
  | 0 => pure ()
  | i + 1 => do
    let pte ← readEntry frame i
    let config := toConfig pte (decide (1 < level))
    if config.valid && !(config.huge || level == 1) then
      free config.paddr
      writeEntry frame i (fromConfig invalidConfig)
    deallocateChildren free level frame i

def deallocateRecursive : Nat → PhysAddr → Run P Unit
  | 0, frame => do
    deallocateChildren (fun _ => Exec.throw .panic) 0 frame T.len
    deallocFrame frame
  | level + 1, frame => do
    deallocateChildren (deallocateRecursive level) (level + 1) frame T.len
    deallocFrame frame

def translateRecursiveWithLevel (mem : PhysAddr → Nat → P) :
    Nat → PhysAddr → Nat → Except Fault (P × Nat)
  | 0, _, _ => .error .panic
  | level + 1, frame, vaddr =>
    match T.virtToIndex vaddr (level + 1) with
    | .error fault => .error fault
    | .ok index =>
      let pte := mem frame index
      let config := toConfig pte (decide (1 < level + 1))
      if !config.valid then .error (.err .notMapped)
      else if config.huge || level + 1 == 1 then .ok (pte, level + 1)
      else translateRecursiveWithLevel mem level config.paddr vaddr

def isFrameEmpty (mem : PhysAddr → Nat → P) (frame : PhysAddr) : Bool :=
  (List.range T.len).all fun i => !(toConfig (mem frame i) false).valid

end Frame

end Sparreal.Paging
