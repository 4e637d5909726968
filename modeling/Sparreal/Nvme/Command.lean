import Mathlib.Algebra.Group.Nat.Defs
import Mathlib.Tactic.Common

/-!
# NVMe commands

`CommandSet` of `nvme/src/queue.rs` with the constructors the driver uses, the opcodes of `command.rs` and the
command identifiers. Every field has the width it has in the source.
-/

namespace Sparreal.Nvme

def Opcode.new (generic function dataTransfer : UInt8) : UInt8 :=
  generic <<< 7 ||| function <<< 2 ||| dataTransfer

def Opcode.createIoSq : UInt8 := Opcode.new 0b0 0b0 0b1
def Opcode.createIoCq : UInt8 := Opcode.new 0b0 0b1 0b1
def Opcode.identify : UInt8 := Opcode.new 0b0 0b1 0b10
def Opcode.setFeatures : UInt8 := Opcode.new 0b0 0b10 0b1
def Opcode.nvmWrite : UInt8 := Opcode.new 0b0 0b000 0b01
def Opcode.nvmRead : UInt8 := Opcode.new 0b0 0b000 0b10

/-- `next_id`: the identifier and the counter after it. -/
def nextId (counter : UInt32) : UInt32 × UInt32 :=
  if counter = 0xFFFF then (0, 0) else (counter, counter + 1)

structure CommandSet where
  cdw0 : UInt32 := 0
  nsid : UInt32 := 0
  cdw2 : UInt32 × UInt32 := (0, 0)
  metadata : UInt64 := 0
  prp1 : UInt64 := 0
  prp2 : UInt64 := 0
  cdw10 : UInt32 := 0
  cdw11 : UInt32 := 0
  cdw12 : UInt32 := 0
  cdw13 : UInt32 := 0
  cdw14 : UInt32 := 0
  cdw15 : UInt32 := 0
  deriving DecidableEq, Repr

inductive Feature where
  | numberOfQueues (nsq ncq : UInt32)
  | interruptVectorConfiguration
  deriving DecidableEq, Repr

def Feature.toCdw10 : Feature → UInt32
  | .numberOfQueues _ _ => 0x7
  | .interruptVectorConfiguration => 0x9

namespace CommandSet

/-- `CommandSet::cdw0_from_opcode`, with the identifier it draws. -/
def cdw0FromOpcode (opcode : UInt8) (id : UInt32) : UInt32 :=
  (opcode.toUInt32 &&& (0xff : UInt32)) + ((id &&& (0xffff : UInt32)) <<< 16)

def setFeatures (id : UInt32) (feature : Feature) : CommandSet :=
  { cdw0 := cdw0FromOpcode Opcode.setFeatures id
    cdw10 := feature.toCdw10
    cdw11 := match feature with
      | .numberOfQueues nsq ncq => nsq ||| ncq <<< 16
      | .interruptVectorConfiguration => 0 }

def createIoCompletionQueue (id qid size : UInt32) (paddr : UInt64)
    (physicallyContiguous interruptsEnabled : Bool) (interruptVector : UInt32) : CommandSet :=
  { cdw0 := cdw0FromOpcode Opcode.createIoCq id
    prp1 := paddr
    cdw10 := (qid &&& (0xffff : UInt32)) ||| ((size - 1) &&& (0xffff : UInt32)) <<< 16
    cdw11 := (if physicallyContiguous then (1 : UInt32) else 0) |||
      (if interruptsEnabled then (1 : UInt32) <<< 1 else 0) ||| interruptVector <<< 16 }

def createIoSubmissionQueue (id qid size : UInt32) (paddr : UInt64) (physicallyContiguous : Bool)
    (priority cqid : UInt32) (nvmSetId : UInt16) : CommandSet :=
  { cdw0 := cdw0FromOpcode Opcode.createIoSq id
    prp1 := paddr
    cdw10 := (qid &&& (0xffff : UInt32)) ||| ((size - 1) &&& (0xffff : UInt32)) <<< 16
    cdw11 := (if physicallyContiguous then (1 : UInt32) else 0) ||| priority <<< 1 ||| cqid <<< 16
    cdw12 := nvmSetId.toUInt32 }

/-- What `nvm_cmd_read` and `nvm_cmd_write` share. -/
def nvmCmd (opcode : UInt8) (id nsid : UInt32) (paddr startingLba : UInt64) (blkNum : UInt16) : CommandSet :=
  { nsid := nsid
    cdw0 := cdw0FromOpcode opcode id
    prp1 := paddr
    cdw10 := (startingLba &&& (0xFFFFFFFF : UInt64)).toUInt32
    cdw11 := (startingLba >>> 32).toUInt32
    cdw12 := blkNum.toUInt32 }

def nvmCmdRead : UInt32 → UInt32 → UInt64 → UInt64 → UInt16 → CommandSet := nvmCmd Opcode.nvmRead

def nvmCmdWrite : UInt32 → UInt32 → UInt64 → UInt64 → UInt16 → CommandSet := nvmCmd Opcode.nvmWrite

/-- The command `get_identfy` makes for `IdentifyController`. -/
def identifyController (id : UInt32) (paddr : UInt64) : CommandSet :=
  { cdw0 := cdw0FromOpcode Opcode.identify id, cdw10 := 0x01, prp1 := paddr }

/-- The field `CommandId` of the first dword. -/
def commandId (command : CommandSet) : UInt32 := command.cdw0 >>> 16

end CommandSet

end Sparreal.Nvme
