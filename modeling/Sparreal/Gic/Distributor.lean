import Sparreal.Lib.Bank

/-!
# The GICv2 distributor

`DistributorReg` of `gic/src/version/v2/gicd.rs` and the accessors and `Gic::init` of `v2/mod.rs`. Interrupts are
packed 32, 16 or one to a register: one bit each for enable, pending, active and group, two bits for the trigger,
a byte each for priority and target. `IPRIORITYR` and `ITARGETSR` are declared as arrays of bytes, but the loops over
them count registers of four, so they stop at a quarter of the interrupts (`init_eq`): every shared interrupt from
there on keeps the priority and the target it had (`configured_iff`).
-/

namespace Sparreal.Gic

/-- A register written with ones to clear: `ICENABLER`, `ICPENDR`, `ICACTIVER`. -/
def clears (value old : BitVec 32) : BitVec 32 := old &&& ~~~value

def takes {w : Nat} (value _ : BitVec w) : BitVec w := value

/-- The registers behind the distributor's map. A pair of set and clear registers shows one bank. -/
structure DistributorReg where
  ctlr : BitVec 32
  typer : BitVec 32
  /-- `IGROUPR`. -/
  group : Bank 0x20 32
  /-- `ISENABLER` and `ICENABLER`. -/
  enable : Bank 0x20 32
  /-- `ISPENDR` and `ICPENDR`. -/
  pending : Bank 0x20 32
  /-- `ISACTIVER` and `ICACTIVER`. -/
  active : Bank 0x20 32
  /-- `IPRIORITYR`. -/
  priority : Bank 1024 8
  /-- `ITARGETSR`. -/
  targets : Bank 1024 8
  /-- `ICFGR`. -/
  config : Bank 0x40 32

inductive Trigger
  | edge | level
  deriving DecidableEq, Repr

/-! ### What the accessors read -/

/-- `IrqVecReadable::get_irq_bit`. -/
def getIrqBit (bank : Bank 0x20 32) (index : Nat) : Option Bool :=
  (bank.read (index / 32)).map fun word => word &&& (1#32 <<< (index % 32)) != 0

/-- `TargetList::cpu_id_list`. -/
def cpuIdList (list : BitVec 8) : List Nat := (List.range 8).filter fun i => list &&& (1#8 <<< i) != 0

namespace DistributorReg

def isIrqEnable (d : DistributorReg) (id : Nat) : Option Bool := getIrqBit d.enable id

def isPending (d : DistributorReg) (id : Nat) : Option Bool := getIrqBit d.pending id

def isActive (d : DistributorReg) (id : Nat) : Option Bool := getIrqBit d.active id

/-- The bit `set_interrupt_group1` writes. -/
def isGroup1 (d : DistributorReg) (id : Nat) : Option Bool := getIrqBit d.group id

def getPriority (d : DistributorReg) (id : Nat) : Option (BitVec 8) := d.priority.read id

/-- `get_target_cpu`; a private interrupt has no targets. -/
def getTargetCpu (d : DistributorReg) (id : Nat) : Option (BitVec 8) :=
  if id < 32 then none else d.targets.read id

def getCfg (d : DistributorReg) (id : Nat) : Option Trigger :=
  (d.config.read (id / 16)).map fun current =>
    if current &&& (1#32 <<< (id % 16 * 2 + 1)) != 0 then .edge else .level

/-! ### Initialisation -/

/-- `CTLR::EnableGrp0` and `CTLR::EnableGrp1`. -/
def enableGrps : BitVec 32 := 0b11

def disable (d : DistributorReg) : DistributorReg := { d with ctlr := d.ctlr &&& ~~~enableGrps }

/-- `DistributorReg::enable`. -/
def enableGroups (d : DistributorReg) : DistributorReg := { d with ctlr := d.ctlr ||| enableGrps }

/-- `TYPER::ITLinesNumber`. -/
def itLinesNumber (d : DistributorReg) : Nat := (d.typer.extractLsb' 0 5).toNat

def maxSpiNum (d : DistributorReg) : Nat := (d.itLinesNumber + 1) * 32

def divCeil (a b : Nat) : Nat := (a + b - 1) / b

def bitRegs (maxInterrupts : Nat) : Nat := min (divCeil maxInterrupts 32) 0x20

def irqDisableAll (d : DistributorReg) (maxInterrupts : Nat) : Option DistributorReg :=
  (d.enable.forRange (clears (BitVec.allOnes 32)) 0 (bitRegs maxInterrupts)).map ({ d with enable := · })

def pendingClearAll (d : DistributorReg) (maxInterrupts : Nat) : Option DistributorReg :=
  (d.pending.forRange (clears (BitVec.allOnes 32)) 0 (bitRegs maxInterrupts)).map ({ d with pending := · })

def activeClearAll (d : DistributorReg) (maxInterrupts : Nat) : Option DistributorReg :=
  (d.active.forRange (clears (BitVec.allOnes 32)) 0 (bitRegs maxInterrupts)).map ({ d with active := · })

def groupsAllTo0 (d : DistributorReg) (maxInterrupts : Nat) : Option DistributorReg :=
  (d.group.forRange (takes 0) 0 (bitRegs maxInterrupts)).map ({ d with group := · })

def setDefaultSpiPriorities (d : DistributorReg) (maxInterrupts : Nat) : Option DistributorReg :=
  let totalRegs := min (divCeil maxInterrupts 4) 1024
  let spiStartId := 32
  (d.priority.forRange (takes 0xA0) spiStartId totalRegs).map ({ d with priority := · })

def configureInterruptTargets (d : DistributorReg) (maxInterrupts : Nat) : Option DistributorReg :=
  if maxInterrupts ≤ 32 then some d
  else
    let spiStart := 32
    let numSpis := maxInterrupts - spiStart
    let numRegs := divCeil numSpis 4
    let targetRegStart := spiStart / 4
    let targetRegEnd := min (targetRegStart + numRegs) 1024
    (d.targets.forRange (takes 0x01) targetRegStart targetRegEnd).map ({ d with targets := · })

def configureInterruptConfig (d : DistributorReg) (maxInterrupts : Nat) : Option DistributorReg :=
  let numRegs := min (divCeil maxInterrupts 16) 0x40
  (d.config.forRange (takes 0) 0 numRegs).map ({ d with config := · })

def init (d : DistributorReg) : Option DistributorReg := do
  let d := d.disable
  let maxSpi := d.maxSpiNum
  let d ← d.irqDisableAll maxSpi
  let d ← d.pendingClearAll maxSpi
  let d ← d.activeClearAll maxSpi
  let d ← d.groupsAllTo0 maxSpi
  let d ← d.setDefaultSpiPriorities maxSpi
  let d ← d.configureInterruptTargets maxSpi
  let d ← d.configureInterruptConfig maxSpi
  return d.enableGroups

/-! ### What the loops leave -/

section Loops

variable {d : DistributorReg} {lines : Nat}

theorem itLinesNumber_lt (d : DistributorReg) : d.itLinesNumber < 32 := BitVec.isLt _

theorem divCeil_lines {k : Nat} (hk : 0 < k) (q : Nat) : divCeil (q * k) k = q := by
  unfold divCeil
  rw [Nat.add_sub_assoc hk, Nat.mul_comm, Nat.mul_add_div hk, Nat.div_eq_of_lt (by omega), Nat.add_zero]

/-- A bank of words whose first `regs` are cleared. -/
def cleared {n : Nat} (bank : Bank n 32) (regs : Nat) : Bank n 32 := fun j => if j.val < regs then 0 else bank j

theorem forRange_cleared {n : Nat} {write : BitVec 32 → BitVec 32} (hwrite : ∀ old, write old = 0)
    (bank : Bank n 32) {regs : Nat} (h : regs ≤ n) : bank.forRange write 0 regs = some (cleared bank regs) := by
  unfold cleared
  rw [Bank.forRange_eq write bank h]
  simp [hwrite]

theorem takes_zero (old : BitVec 32) : takes 0 old = 0 := rfl

theorem clears_allOnes (old : BitVec 32) : clears (BitVec.allOnes 32) old = 0 := by simp [clears]

section

variable (h : lines ≤ 32)

include h

theorem bitRegs_lines : bitRegs (lines * 32) = lines := by
  unfold bitRegs
  rw [divCeil_lines (by omega), Nat.min_eq_left h]

theorem irqDisableAll_eq : d.irqDisableAll (lines * 32) = some { d with enable := cleared d.enable lines } := by
  rw [irqDisableAll, bitRegs_lines h, forRange_cleared clears_allOnes _ h, Option.map_some]

theorem pendingClearAll_eq : d.pendingClearAll (lines * 32) = some { d with pending := cleared d.pending lines } := by
  rw [pendingClearAll, bitRegs_lines h, forRange_cleared clears_allOnes _ h, Option.map_some]

theorem activeClearAll_eq : d.activeClearAll (lines * 32) = some { d with active := cleared d.active lines } := by
  rw [activeClearAll, bitRegs_lines h, forRange_cleared clears_allOnes _ h, Option.map_some]

theorem groupsAllTo0_eq : d.groupsAllTo0 (lines * 32) = some { d with group := cleared d.group lines } := by
  rw [groupsAllTo0, bitRegs_lines h, forRange_cleared takes_zero _ h, Option.map_some]

theorem configureInterruptConfig_eq :
    d.configureInterruptConfig (lines * 32) = some { d with config := cleared d.config (lines * 2) } := by
  have hregs : divCeil (lines * 32) 16 = lines * 2 := by
    rw [show lines * 32 = lines * 2 * 16 by omega, divCeil_lines (by omega)]
  simp only [configureInterruptConfig]
  rw [hregs, Nat.min_eq_left (by omega), forRange_cleared takes_zero _ (by omega), Option.map_some]

theorem setDefaultSpiPriorities_eq :
    d.setDefaultSpiPriorities (lines * 32) = some { d with
      priority := fun j => if 32 ≤ j.val ∧ j.val < lines * 8 then 0xA0 else d.priority j } := by
  have hregs : divCeil (lines * 32) 4 = lines * 8 := by
    rw [show lines * 32 = lines * 8 * 4 by omega, divCeil_lines (by omega)]
  simp only [setDefaultSpiPriorities]
  rw [hregs, Nat.min_eq_left (by omega), Bank.forRange_eq _ _ (by omega), Option.map_some]
  rfl

end

theorem configureInterruptTargets_eq (hpos : 0 < lines) (h : lines ≤ 32) :
    d.configureInterruptTargets (lines * 32) = some { d with
      targets := fun j => if 8 ≤ j.val ∧ j.val < lines * 8 then 1 else d.targets j } := by
  unfold configureInterruptTargets
  by_cases hone : lines * 32 ≤ 32
  · have hnone : (fun j => if 8 ≤ j.val ∧ j.val < lines * 8 then 1 else d.targets j) = d.targets := by
      funext j
      rw [if_neg (by omega)]
    rw [if_pos hone, hnone]
  · have hregs : divCeil (lines * 32 - 32) 4 = lines * 8 - 8 := by
      rw [show lines * 32 - 32 = (lines * 8 - 8) * 4 by omega, divCeil_lines (by omega)]
    rw [if_neg hone]
    simp only [hregs, show 32 / 4 + (lines * 8 - 8) = lines * 8 by omega]
    rw [Nat.min_eq_left (by omega), Bank.forRange_eq _ _ (by omega), Option.map_some]
    rfl

def initialised (d : DistributorReg) : DistributorReg where
  ctlr := d.ctlr &&& ~~~enableGrps ||| enableGrps
  typer := d.typer
  group := cleared d.group (d.itLinesNumber + 1)
  enable := cleared d.enable (d.itLinesNumber + 1)
  pending := cleared d.pending (d.itLinesNumber + 1)
  active := cleared d.active (d.itLinesNumber + 1)
  priority := fun j => if 32 ≤ j.val ∧ j.val < (d.itLinesNumber + 1) * 8 then 0xA0 else d.priority j
  targets := fun j => if 8 ≤ j.val ∧ j.val < (d.itLinesNumber + 1) * 8 then 1 else d.targets j
  config := cleared d.config ((d.itLinesNumber + 1) * 2)

/-- Initialisation accesses no register outside its bank. -/
theorem init_eq (d : DistributorReg) : d.init = some d.initialised := by
  have hlines : d.itLinesNumber + 1 ≤ 32 := itLinesNumber_lt d
  have hmax : d.disable.maxSpiNum = (d.itLinesNumber + 1) * 32 := rfl
  simp only [init, hmax, irqDisableAll_eq hlines, pendingClearAll_eq hlines, activeClearAll_eq hlines,
    groupsAllTo0_eq hlines, setDefaultSpiPriorities_eq hlines, configureInterruptTargets_eq (Nat.succ_pos _) hlines,
    configureInterruptConfig_eq hlines, Option.bind_eq_bind, Option.bind_some]
  rfl

end Loops

/-! ### Which interrupts are configured -/

/-- What initialisation is to leave of a shared interrupt. -/
structure Configured (d : DistributorReg) (id : Nat) : Prop where
  disabled : d.isIrqEnable id = some false
  notPending : d.isPending id = some false
  notActive : d.isActive id = some false
  group0 : d.isGroup1 id = some false
  priority : d.getPriority id = some 0xA0
  targets : (d.getTargetCpu id).map cpuIdList = some [0]
  level : d.getCfg id = some .level

def Spi (d : DistributorReg) (id : Nat) : Prop := 32 ≤ id ∧ id < min (32 * (d.itLinesNumber + 1)) 1020

theorem getIrqBit_cleared (bank : Bank 0x20 32) {regs id : Nat} (h : id / 32 < regs) (hid : id < 1024) :
    getIrqBit (cleared bank regs) id = some false := by
  unfold getIrqBit
  rw [Bank.read_eq _ (show id / 32 < 0x20 by omega), Option.map_some]
  simp [cleared, h]

theorem getCfg_cleared {d : DistributorReg} {bank : Bank 0x40 32} {regs id : Nat}
    (hconfig : d.config = cleared bank regs) (h : id / 16 < regs) (hid : id < 1024) : d.getCfg id = some .level := by
  unfold getCfg
  rw [hconfig, Bank.read_eq _ (show id / 16 < 0x40 by omega), Option.map_some]
  simp [cleared, h]

section Spi

variable {d : DistributorReg} {id : Nat}

theorem getPriority_initialised (h : d.Spi id) :
    d.initialised.getPriority id =
      if id < (d.itLinesNumber + 1) * 8 then some 0xA0 else d.getPriority id := by
  obtain ⟨hlow, hhigh⟩ := h
  unfold getPriority
  rw [Bank.read_eq _ (show id < 1024 by omega), Bank.read_eq _ (show id < 1024 by omega)]
  simp only [initialised, hlow, true_and]
  split <;> rfl

theorem getTargetCpu_initialised (h : d.Spi id) :
    d.initialised.getTargetCpu id =
      if id < (d.itLinesNumber + 1) * 8 then some 1 else d.getTargetCpu id := by
  obtain ⟨hlow, hhigh⟩ := h
  have hshared : ¬ id < 32 := by omega
  unfold getTargetCpu
  rw [if_neg hshared, if_neg hshared, Bank.read_eq _ (show id < 1024 by omega),
    Bank.read_eq _ (show id < 1024 by omega)]
  simp only [initialised, show 8 ≤ id by omega, true_and]
  split <;> rfl

/-- One shared interrupt: only its priority and its target can be wrong, and only from a quarter of the
interrupts on. -/
theorem configured_initialised_iff (h : d.Spi id) :
    d.initialised.Configured id ↔
      ((d.itLinesNumber + 1) * 8 ≤ id →
        d.getPriority id = some 0xA0 ∧ (d.getTargetCpu id).map cpuIdList = some [0]) := by
  have hpriority := getPriority_initialised h
  have htargets := getTargetCpu_initialised h
  obtain ⟨hlow, hhigh⟩ := h
  constructor
  · intro hc hid
    rw [if_neg (by omega)] at hpriority htargets
    rw [← hpriority, ← htargets]
    exact ⟨hc.priority, hc.targets⟩
  · intro hprior
    have hword : id / 32 < d.itLinesNumber + 1 := by omega
    refine ⟨getIrqBit_cleared _ hword (by omega), getIrqBit_cleared _ hword (by omega),
      getIrqBit_cleared _ hword (by omega), getIrqBit_cleared _ hword (by omega), ?_, ?_,
      getCfg_cleared rfl (by omega) (by omega)⟩
    · rw [hpriority]
      split
      · rfl
      · exact (hprior (by omega)).1
    · rw [htargets]
      split
      · decide
      · exact (hprior (by omega)).2

end Spi

/-- After initialisation every shared interrupt is disabled, idle, in group 0 and level-sensitive; priority and
target are right of all of them exactly if those from a quarter of the interrupts on had them right before. -/
theorem configured_iff (d : DistributorReg) :
    (∃ d', d.init = some d' ∧ ∀ id, d.Spi id → d'.Configured id) ↔
      ∀ id, d.Spi id → (d.itLinesNumber + 1) * 8 ≤ id →
        d.getPriority id = some 0xA0 ∧ (d.getTargetCpu id).map cpuIdList = some [0] := by
  constructor
  · rintro ⟨d', hinit, hall⟩ id hid
    obtain rfl : d.initialised = d' := Option.some.inj ((init_eq d).symm.trans hinit)
    exact (configured_initialised_iff hid).1 (hall id hid)
  · intro hprior
    refine ⟨d.initialised, init_eq d, ?_⟩
    intro id hid
    exact (configured_initialised_iff hid).2 (hprior id hid)

/-- A distributor of 64 interrupts with all registers zero but `TYPER`. -/
def reset : DistributorReg :=
  ⟨0, 1, fun _ => 0, fun _ => 0, fun _ => 0, fun _ => 0, fun _ => 0, fun _ => 0, fun _ => 0⟩

/-- The first shared interrupt of a distributor of 64 keeps the priority 0 it had, the highest, and targets no CPU. -/
theorem reset_unconfigured :
    reset.Spi 32 ∧ ∃ d', reset.init = some d' ∧ d'.getPriority 32 = some 0 ∧
      (d'.getTargetCpu 32).map cpuIdList = some [] ∧ ¬ d'.Configured 32 := by
  refine ⟨by unfold Spi; decide, reset.initialised, init_eq reset, by decide, by decide, ?_⟩
  intro h
  have hpriority := h.priority
  revert hpriority
  decide

end DistributorReg

end Sparreal.Gic
