import Sparreal.Lib.BitField
import Mathlib.Logic.Function.Basic

/-!
# The list registers of GICv2

`set_virtual_interrupt` and `get_virtual_interrupt` of `gic/src/version/v2/mod.rs`. The priority has five bits in a
list register. It is written with its low bits, although the high ones are those that count, and read as the high
ones: only the priority 0 comes back (`roundTrips_iff`).
-/

namespace Sparreal.Gic.ListRegister

open BitField

inductive VirtualInterruptState
  | invalid | pending | active | pendingAndActive
  deriving DecidableEq, Repr

inductive VirtualInterruptType
  | software (cpuId : Option Nat) (eoiMaintenance : Bool)
  | hardware (physicalId : Nat)
  deriving DecidableEq, Repr

structure VirtualInterruptConfig where
  virtualId : Nat
  priority : Nat
  state : VirtualInterruptState
  group1 : Bool
  interruptType : VirtualInterruptType
  deriving DecidableEq, Repr

/-! ### The fields of `LR` -/

def virtualID : BitField := ⟨0, 10⟩
def physicalID : BitField := ⟨10, 10⟩
def cpuID : BitField := ⟨10, 3⟩
def eoi : BitField := ⟨19, 1⟩
def priority : BitField := ⟨23, 5⟩
def state : BitField := ⟨28, 2⟩
def grp1 : BitField := ⟨30, 1⟩
def hw : BitField := ⟨31, 1⟩

def VirtualInterruptState.toU32 : VirtualInterruptState → Nat
  | .invalid => 0
  | .pending => 1
  | .active => 2
  | .pendingAndActive => 3

def VirtualInterruptState.ofU32 (value : Nat) : VirtualInterruptState :=
  match value with
  | 1 => .pending
  | 2 => .active
  | 3 => .pendingAndActive
  | _ => .invalid

/-- The bits for the type of a virtual interrupt. -/
def typeBits (virtualId : Nat) : VirtualInterruptType → Nat
  | .hardware physicalId => hw.set ||| physicalID.val physicalId
  | .software cpuId eoiMaintenance =>
    -- a CPU id is written only for a software generated interrupt
    orIf eoiMaintenance eoi.set (cpuId.elim 0 fun cpu => if virtualId < 16 then cpuID.val cpu else 0)

/-- The word that `set_virtual_interrupt` writes. -/
def encode (config : VirtualInterruptConfig) : Nat :=
  orIf config.group1 grp1.set
    (virtualID.val config.virtualId ||| priority.val config.priority ||| state.val config.state.toU32) |||
      typeBits config.virtualId config.interruptType

/-- What `get_virtual_interrupt` makes of a word. -/
def decode (word : Nat) : VirtualInterruptConfig where
  virtualId := virtualID.read word
  priority := (priority.read word) <<< 3 % 256
  state := .ofU32 (state.read word)
  group1 := grp1.isSet word
  interruptType :=
    if hw.isSet word then .hardware (physicalID.read word)
    else .software (if cpuID.read word ≠ 0 then some (cpuID.read word) else none) (eoi.isSet word)

/-- The array `LR`. -/
abbrev ListRegs := Nat → Nat

/-- `set_virtual_interrupt`; an index outside the array is a panic. -/
def setVirtualInterrupt (lrIndex : Nat) (config : VirtualInterruptConfig) (lr : ListRegs) : Option ListRegs :=
  if lrIndex < 64 then some (Function.update lr lrIndex (encode config)) else none

def getVirtualInterrupt (lrIndex : Nat) (lr : ListRegs) : Option VirtualInterruptConfig :=
  if lrIndex < 64 then some (decode (lr lrIndex)) else none

/-- A configuration that a list register can hold. -/
structure Valid (config : VirtualInterruptConfig) : Prop where
  virtualId : config.virtualId < 1024
  priority : config.priority < 256 ∧ config.priority % 8 = 0
  physicalId : ∀ id, config.interruptType = .hardware id → id < 1024
  cpuId : ∀ cpu eoi, config.interruptType = .software (some cpu) eoi → 1 ≤ cpu ∧ cpu ≤ 7 ∧ config.virtualId < 16

/-- The configuration comes back, and the other list registers are as they were. -/
def RoundTrips (lrIndex : Nat) (config : VirtualInterruptConfig) (lr : ListRegs) : Prop :=
  ∃ lr', setVirtualInterrupt lrIndex config lr = some lr' ∧ getVirtualInterrupt lrIndex lr' = some config ∧
    ∀ other, other ≠ lrIndex → lr' other = lr other

/-! ### Reading back -/

theorem ofU32_toU32 (s : VirtualInterruptState) : .ofU32 (s.toU32 % 4) = s := by
  cases s <;> rfl

theorem priority_read (prio : Nat) : (prio % 2 ^ priority.width) <<< 3 % 256 = prio % 32 * 8 := by
  rw [show priority.width = 5 from rfl, Nat.shiftLeft_eq]
  omega

/-- A configuration comes back but for its priority, of which the low bits come back as the high ones. -/
theorem decode_encode {config : VirtualInterruptConfig} (h : Valid config) :
    decode (encode config) = { config with priority := config.priority % 32 * 8 } := by
  obtain ⟨virtualId, prio, st, group1, kind⟩ := config
  have hid : virtualId % 2 ^ virtualID.width = virtualId := Nat.mod_eq_of_lt h.virtualId
  have hstate : VirtualInterruptState.ofU32 (st.toU32 % 2 ^ state.width) = st := ofU32_toU32 st
  cases kind with
  | hardware physicalId =>
    have hphysical : physicalId % 2 ^ physicalID.width = physicalId := Nat.mod_eq_of_lt (h.physicalId _ rfl)
    unfold decode encode typeBits
    simp (disch := decide) [read_or, read_orIf, read_val, read_val_of_apart, read_set_of_apart, isSet_or, isSet_orIf,
      isSet_set, isSet_val_of_apart, isSet_set_of_apart, hid, hstate, hphysical, priority_read]
  | software cpu eoiMaintenance =>
    have hcpu : cpu.elim 0 (fun cpu => if virtualId < 16 then cpuID.val cpu else 0) = cpuID.val (cpu.getD 0) := by
      cases cpu with
      | none => rfl
      | some cpu => exact if_pos (h.cpuId cpu eoiMaintenance rfl).2.2
    have hback : (if cpu.getD 0 % 2 ^ cpuID.width = 0 then none else some (cpu.getD 0 % 2 ^ cpuID.width)) = cpu := by
      cases cpu with
      | none => rfl
      | some cpu =>
        obtain ⟨hlow, hhigh, -⟩ := h.cpuId cpu eoiMaintenance rfl
        have hmod : cpu % 2 ^ cpuID.width = cpu := Nat.mod_eq_of_lt (Nat.lt_succ_of_le hhigh)
        rw [Option.getD_some, hmod, if_neg (by omega)]
    unfold decode encode typeBits
    simp (disch := decide) [hcpu, read_or, read_orIf, read_val, read_val_of_apart, read_set_of_apart, isSet_or,
      isSet_orIf, isSet_set, isSet_val_of_apart, isSet_set_of_apart, hid, hstate, priority_read, hback]

/-- A configuration comes back if its priority is 0. -/
theorem roundTrips_iff {lrIndex : Nat} (hindex : lrIndex < 64) {config : VirtualInterruptConfig} (h : Valid config)
    (lr : ListRegs) : RoundTrips lrIndex config lr ↔ config.priority = 0 := by
  have hget : getVirtualInterrupt lrIndex (Function.update lr lrIndex (encode config)) =
      some { config with priority := config.priority % 32 * 8 } := by
    rw [getVirtualInterrupt, if_pos hindex, Function.update_self, decode_encode h]
  rw [RoundTrips, setVirtualInterrupt, if_pos hindex]
  simp only [Option.some_inj, exists_eq_left', hget]
  obtain ⟨hlt, hmul⟩ := h.priority
  constructor
  · rintro ⟨hsame, -⟩
    have hprio : config.priority % 32 * 8 = config.priority := congrArg VirtualInterruptConfig.priority hsame
    omega
  · intro hzero
    refine ⟨?_, fun other hother => Function.update_of_ne hother _ _⟩
    obtain ⟨virtualId, prio, st, group1, kind⟩ := config
    obtain rfl : prio = 0 := hzero
    rfl

def sgiConfig (priority : Nat) : VirtualInterruptConfig :=
  { virtualId := 1, priority := priority, state := .pending, group1 := true, interruptType := .software (some 2) false }

theorem valid_sgiConfig {priority : Nat} (h : priority < 256 ∧ priority % 8 = 0) : Valid (sgiConfig priority) := by
  refine ⟨show 1 < 1024 by decide, h, fun id hid => by simp [sgiConfig] at hid, fun cpu eoi hcpu => ?_⟩
  simp only [sgiConfig, VirtualInterruptType.software.injEq, Option.some.injEq] at hcpu
  rw [← hcpu.1]
  exact ⟨by decide, by decide, show 1 < 16 by decide⟩

theorem roundTrips_zero : RoundTrips 0 (sgiConfig 0) (fun _ => 0) :=
  (roundTrips_iff (by decide) (valid_sgiConfig (by decide)) _).mpr rfl

/-- The priority 0xA0 is read back as 0. -/
theorem priority_lost : Valid (sgiConfig 0xA0) ∧ decode (encode (sgiConfig 0xA0)) = sgiConfig 0 ∧
    ¬ RoundTrips 0 (sgiConfig 0xA0) (fun _ => 0) := by
  have hlost : decode (encode (sgiConfig 0xA0)) = sgiConfig 0 := by decide
  refine ⟨valid_sgiConfig (by decide), hlost, ?_⟩
  rintro ⟨lr', hset, hget, -⟩
  rw [← Option.some.inj hset, getVirtualInterrupt, if_pos (by decide), Function.update_self, hlost] at hget
  exact absurd hget (by decide)

end Sparreal.Gic.ListRegister
