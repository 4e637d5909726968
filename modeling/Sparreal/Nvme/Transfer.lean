import Sparreal.Dma.Container
import Sparreal.Nvme.Command

/-!
# NVMe reads and writes

`Nvme::block_read_sync` and `block_write_sync` of `nvme/src/nvme.rs`, up to the command they issue, and what
the NVM command set makes of that command: where it starts, how many blocks it moves, and which memory it uses
for them. The number of blocks goes into a field that counts from zero, so one block more than was asked for is
moved (`blocks_issue`).
-/

namespace Sparreal.Nvme

open Dma (DeviceDma World DCommon DmaHandle DmaDirection Fault byteLayout copyFromSlice)

/-! ### The driver -/

structure Namespace where
  id : UInt32
  lbaSize : Nat

/-- What the driver is asked for. -/
inductive Transfer where
  /-- `block_read_sync` into a buffer of that length. -/
  | read (len : Nat)
  /-- `block_write_sync`. -/
  | write (buff : List UInt8)

namespace Transfer

/-- `buff.len()`. -/
def len : Transfer → Nat
  | .read len => len
  | .write buff => buff.length

variable {σ : Type}

/-- `block_read_sync`, up to the command. -/
def blockReadSync (d : DeviceDma σ) (ns : Namespace) (id : UInt32) (blockStart : UInt64) (len : Nat) :
    Exec Fault (World σ) (DCommon × CommandSet) :=
  if len % ns.lbaSize ≠ 0 then .throw .panic
  else do
    let dmaBuff ← Dma.DArray.newZeroWithAlign d byteLayout len ns.lbaSize .fromDevice
    let blkNum := dmaBuff.handle.size / ns.lbaSize
    return (dmaBuff, .nvmCmdRead id ns.id (.ofNat dmaBuff.handle.dmaAddr) blockStart (.ofNat blkNum))

/-- `dma_buff.copy_from_slice(buff)`. -/
def copyIn (dmaBuff : DCommon) (buff : List UInt8) : Exec Fault (World σ) Unit := fun w =>
  match copyFromSlice dmaBuff.handle dmaBuff.direction buff w.memory with
  | some memory => (.ok (), { w with memory := memory })
  | none => (.error .panic, w)

/-- `block_write_sync`, up to the command. -/
def blockWriteSync (d : DeviceDma σ) (ns : Namespace) (id : UInt32) (blockStart : UInt64) (buff : List UInt8) :
    Exec Fault (World σ) (DCommon × CommandSet) :=
  if buff.length % ns.lbaSize ≠ 0 then .throw .panic
  else do
    let dmaBuff ← Dma.DArray.newZeroWithAlign d byteLayout buff.length ns.lbaSize .toDevice
    copyIn dmaBuff buff
    let blkNum := dmaBuff.handle.size / ns.lbaSize
    return (dmaBuff, .nvmCmdWrite id ns.id (.ofNat dmaBuff.handle.dmaAddr) blockStart (.ofNat blkNum))

/-- The buffer and the command of a transfer. -/
def issue (d : DeviceDma σ) (ns : Namespace) (id : UInt32) (blockStart : UInt64) :
    Transfer → Exec Fault (World σ) (DCommon × CommandSet)
  | .read len => blockReadSync d ns id blockStart len
  | .write buff => blockWriteSync d ns id blockStart buff

end Transfer

/-! ### The controller -/

namespace CommandSet

/-- The first block: `SLBA` in dwords 10 and 11. -/
def startingLba (cmd : CommandSet) : Nat := cmd.cdw10.toNat + cmd.cdw11.toNat * 2 ^ 32

/-- The number of blocks: `NLB` in the low half of dword 12 counts from zero. -/
def blocks (cmd : CommandSet) : Nat := cmd.cdw12.toNat % 2 ^ 16 + 1

/-- The page size of the controller; `setup_cc` leaves `CC.MPS` at zero. -/
def pageSize : Nat := 4096

/-- The memory a PRP list and the pages it names take up, as addresses and lengths. The last entry of a page of
the list leads to the next page if there is more to come. -/
def prpList (word : Nat → Nat) : Nat → Nat → Nat → List (Nat × Nat)
  | 0, _, _ => []
  | pages + 1, addr, rest =>
    if (addr + 8) % pageSize = 0 ∧ 0 < pages then
      (addr, 8) :: (word addr, 8) :: (word (word addr), min rest pageSize) ::
        prpList word pages (word addr + 8) (rest - pageSize)
    else (addr, 8) :: (word addr, min rest pageSize) :: prpList word pages (addr + 8) (rest - pageSize)

/-- The memory the controller uses for a transfer of `len` bytes, with what it reads of the PRP list. -/
def accesses (cmd : CommandSet) (word : Nat → Nat) (len : Nat) : List (Nat × Nat) :=
  let first := min len (pageSize - cmd.prp1.toNat % pageSize)
  let rest := len - first
  (cmd.prp1.toNat, first) ::
    if rest = 0 then []
    else if rest ≤ pageSize then [(cmd.prp2.toNat, rest)]
    else prpList word ((rest + pageSize - 1) / pageSize) cmd.prp2.toNat rest

end CommandSet

/-- The command moves the blocks that were asked for and uses no memory but the buffer. -/
structure Exact (ns : Namespace) (blockStart : UInt64) (len : Nat) (buffer : DmaHandle) (word : Nat → Nat)
    (cmd : CommandSet) : Prop where
  nsid : cmd.nsid = ns.id
  start : cmd.startingLba = blockStart.toNat
  blocks : cmd.blocks = len / ns.lbaSize
  inside : ∀ r ∈ cmd.accesses word (cmd.blocks * ns.lbaSize),
    buffer.dmaAddr ≤ r.1 ∧ r.1 + r.2 ≤ buffer.dmaAddr + len

/-! ### What is issued -/

section Issue

variable {σ : Type} {d : DeviceDma σ} {ns : Namespace} {id : UInt32} {blockStart : UInt64} {t : Transfer}
  {w w' : World σ} {buffer : DCommon} {cmd : CommandSet}

theorem newZeroWithAlign_byte {len align : Nat} {direction : DmaDirection}
    (hrun : Dma.DArray.newZeroWithAlign d byteLayout len align direction w = (.ok buffer, w')) :
    buffer.handle.size = len ∧ (len ≠ 0 → buffer.handle.dmaAddr < 2 ^ 64) := by
  rcases Dma.newZeroWithAlign_cases hrun with ⟨⟨_, h⟩, -⟩ | ⟨layout, hsize, -, hnew⟩
  · cases h
  · rcases Dma.newZero_cases hnew with ⟨⟨_, h⟩, -⟩ | ⟨h, rfl, hbuffer, hcheck, -⟩
    · cases h
    · obtain rfl := Except.ok.inj hbuffer
      have hlen : h.size = len := hsize.trans (Nat.mul_one len)
      refine ⟨hlen, fun hne => ?_⟩
      have hmask := (Dma.checkHandle_eq_ok hcheck).1
      rw [DeviceDma.inMask, if_neg (hlen ▸ hne)] at hmask
      have hlt := of_decide_eq_true (Bool.and_eq_true_iff.mp hmask).1
      exact Nat.lt_of_le_of_lt (Nat.le_add_right _ _) hlt

theorem issue_eq (hrun : t.issue d ns id blockStart w = (.ok (buffer, cmd), w')) :
    t.len % ns.lbaSize = 0 ∧ (t.len ≠ 0 → buffer.handle.dmaAddr < 2 ^ 64) ∧
      ∃ opcode, cmd = .nvmCmd opcode id ns.id (.ofNat buffer.handle.dmaAddr) blockStart
        (.ofNat (t.len / ns.lbaSize)) := by
  cases t with
  | read len =>
    simp only [Transfer.issue, Transfer.blockReadSync] at hrun
    split_ifs at hrun with hmultiple
    · cases hrun
    · obtain ⟨dmaBuff, w₁, hnew, hrest⟩ := Exec.bind_eq_ok.mp hrun
      obtain ⟨rfl, rfl⟩ := Prod.mk.inj (Except.ok.inj (Prod.mk.inj hrest).1)
      obtain ⟨hsize, haddr⟩ := newZeroWithAlign_byte hnew
      exact ⟨not_not.mp hmultiple, haddr, Opcode.nvmRead, by rw [hsize]; rfl⟩
  | write buff =>
    simp only [Transfer.issue, Transfer.blockWriteSync] at hrun
    split_ifs at hrun with hmultiple
    · cases hrun
    · obtain ⟨dmaBuff, w₁, hnew, hrest⟩ := Exec.bind_eq_ok.mp hrun
      obtain ⟨_, w₂, -, hrest⟩ := Exec.bind_eq_ok.mp hrest
      obtain ⟨rfl, rfl⟩ := Prod.mk.inj (Except.ok.inj (Prod.mk.inj hrest).1)
      obtain ⟨hsize, haddr⟩ := newZeroWithAlign_byte hnew
      exact ⟨not_not.mp hmultiple, haddr, Opcode.nvmWrite, by rw [hsize]; rfl⟩

theorem blocks_nvmCmd (opcode : UInt8) (nsid : UInt32) (paddr : UInt64) (n : Nat) :
    (CommandSet.nvmCmd opcode id nsid paddr blockStart (.ofNat n)).blocks = n % 2 ^ 16 + 1 := by
  show (UInt16.ofNat n).toUInt32.toNat % 2 ^ 16 + 1 = _
  simp

theorem startingLba_nvmCmd (opcode : UInt8) (nsid : UInt32) (paddr : UInt64) (blkNum : UInt16) :
    (CommandSet.nvmCmd opcode id nsid paddr blockStart blkNum).startingLba = blockStart.toNat := by
  show (blockStart &&& 0xFFFFFFFF).toUInt32.toNat + (blockStart >>> 32).toUInt32.toNat * 2 ^ 32 = _
  have hlt : blockStart.toNat < 2 ^ 64 := blockStart.toNat_lt
  have hlow : (blockStart &&& 0xFFFFFFFF).toUInt32.toNat = blockStart.toNat % 2 ^ 32 := by
    rw [UInt64.toNat_toUInt32, UInt64.toNat_and]
    show (blockStart.toNat &&& (2 ^ 32 - 1)) % 2 ^ 32 = _
    rw [Nat.and_two_pow_sub_one_eq_mod, Nat.mod_mod]
  have hhigh : (blockStart >>> 32).toUInt32.toNat = blockStart.toNat / 2 ^ 32 := by
    rw [UInt64.toNat_toUInt32, UInt64.toNat_shiftRight]
    show (blockStart.toNat >>> 32) % 2 ^ 32 = _
    rw [Nat.shiftRight_eq_div_pow, Nat.mod_eq_of_lt (by omega)]
  omega

/-- One block more than was asked for is moved, of those that fit in the field. -/
theorem blocks_issue (hrun : t.issue d ns id blockStart w = (.ok (buffer, cmd), w')) :
    cmd.blocks = t.len / ns.lbaSize % 2 ^ 16 + 1 ∧ cmd.startingLba = blockStart.toNat := by
  obtain ⟨-, -, opcode, rfl⟩ := issue_eq hrun
  exact ⟨blocks_nvmCmd .., startingLba_nvmCmd ..⟩

/-- The command moves what was asked for only if nothing was. -/
theorem exact_iff (hrun : t.issue d ns id blockStart w = (.ok (buffer, cmd), w')) (word : Nat → Nat) :
    (t.len ≠ 0 → Exact ns blockStart t.len buffer.handle.toDmaHandle word cmd) ↔ t.len = 0 := by
  constructor
  · intro hexact
    by_contra hlen
    have hblocks := (hexact hlen).blocks
    rw [(blocks_issue hrun).1] at hblocks
    omega
  · intro hlen hne
    exact absurd hlen hne

/-- Memory before anything was written to it. -/
def emptyWorld : World Unit := ⟨(), ⟨fun _ => none, fun _ => 0⟩, []⟩

def readOneBlock : Except Fault (DCommon × CommandSet) × World Unit :=
  (Transfer.read 512).issue ⟨Dma.pageBackend, 2 ^ 32 - 1⟩ ⟨1, 512⟩ 0 8 emptyWorld

theorem exact_iff_one_block : ∃ buffer cmd w', readOneBlock = (.ok (buffer, cmd), w') ∧
    ¬ Exact ⟨1, 512⟩ 8 512 buffer.handle.toDmaHandle (fun _ => 0) cmd := by
  have hrun : (Transfer.read 512).issue ⟨Dma.pageBackend, 2 ^ 32 - 1⟩ ⟨1, 512⟩ 0 8 emptyWorld =
      (.ok _, _) := rfl
  exact ⟨_, _, _, hrun, fun h => absurd ((exact_iff hrun _).mp fun _ => h) (by decide)⟩

theorem one_block_moves_two : ∃ buffer cmd w', readOneBlock = (.ok (buffer, cmd), w') ∧
    cmd.blocks = 2 ∧ buffer.handle.dmaAddr = 4096 ∧ buffer.handle.size = 512 ∧
      cmd.accesses (fun _ => 0) (cmd.blocks * 512) = [(4096, 1024)] :=
  ⟨_, _, _, rfl, by decide +kernel, rfl, rfl, by decide +kernel⟩

end Issue

end Sparreal.Nvme
