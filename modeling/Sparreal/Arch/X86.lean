import Sparreal.Lib.BitField
import Sparreal.Paging.Contract

/-!
# x86_64 page-table entries

`Entry` and `Generic` of `someboot/src/arch/x86_64/paging.rs`, and that they keep the contract of the
generic page table for physical addresses below `2 ^ 52`, the width of the address field. A huge page is
told from a pointer to a table by bit 7, whatever the template says of its permissions (`keepsKinds`).
-/

namespace Sparreal.X86

open Sparreal.Paging BitField

def ptePresent : Nat := 1 <<< 0

def pteWritable : Nat := 1 <<< 1

def pteUser : Nat := 1 <<< 2

def pteWriteThrough : Nat := 1 <<< 3

def pteCacheDisable : Nat := 1 <<< 4

def pteAccessed : Nat := 1 <<< 5

def pteDirty : Nat := 1 <<< 6

def pteHuge : Nat := 1 <<< 7

def pteGlobal : Nat := 1 <<< 8

def pteNoExecute : Nat := 1 <<< 63

def pteAddrMask : Nat := 0x000ffffffffff000

/-- `Entry(u64)`. -/
structure Entry where
  bits : Nat
  deriving DecidableEq, Repr

def Entry.fromConfig (config : PteConfig) : Entry :=
  let bits := config.paddr &&& pteAddrMask
  let bits := orIf config.valid ptePresent bits
  let bits := orIf config.writable pteWritable bits
  let bits := orIf config.lower pteUser bits
  let bits := orIf config.dirty pteDirty bits
  let bits := orIf config.global pteGlobal bits
  let bits := orIf (config.isDir && config.huge) pteHuge bits
  let bits := orIf (config.memAttr == .device || config.memAttr == .uncached)
    (pteCacheDisable ||| pteWriteThrough) bits
  let isLeaf := !config.isDir || config.huge
  let bits := orIf (isLeaf && !config.executable) pteNoExecute bits
  ⟨orIf config.valid pteAccessed bits⟩

def Entry.toConfig (entry : Entry) (isDir : Bool) : PteConfig where
  paddr := entry.bits &&& pteAddrMask
  valid := entry.bits &&& ptePresent != 0
  read := entry.bits &&& ptePresent != 0
  writable := entry.bits &&& pteWritable != 0
  executable := entry.bits &&& pteNoExecute == 0
  lower := entry.bits &&& pteUser != 0
  dirty := entry.bits &&& pteDirty != 0
  global := entry.bits &&& pteGlobal != 0
  isDir := isDir
  huge := isDir && entry.bits &&& pteHuge != 0
  memAttr := if entry.bits &&& (pteCacheDisable ||| pteWriteThrough) != 0 then .device else .normal

instance : PageTableEntry Entry where
  fromConfig := Entry.fromConfig
  toConfig := Entry.toConfig
  valid entry := entry.bits &&& ptePresent != 0
  zeroed := ⟨0⟩

def generic : TableMeta Entry where
  pageShift := 12
  levelBits := [9, 9, 9, 9]
  maxBlockLevel := 2
  entrySize := 8
  levels_pos := fourLevels_pos
  table_len := fourLevels_len

theorem addressable : generic.Addressable generic.ptLevel := by
  unfold TableMeta.Addressable
  decide

/-! ### The codec contract -/

theorem and_pteAddrMask {paddr : Nat} (haligned : 2 ^ 12 ∣ paddr) (hlt : paddr < 2 ^ 52) :
    paddr &&& pteAddrMask = paddr := by
  obtain ⟨q, rfl⟩ := haligned
  have hmask : pteAddrMask = (2 ^ 40 - 1) <<< 12 := by decide
  have hq : 2 ^ 12 * q = q <<< 12 := by rw [Nat.shiftLeft_eq, Nat.mul_comm]
  rw [hmask, hq, ← Nat.shiftLeft_and_distrib, Nat.and_two_pow_sub_one_eq_mod,
    Nat.mod_eq_of_lt (by omega)]

theorem fromConfig_addr (c : PteConfig) :
    (Entry.fromConfig c).bits &&& pteAddrMask = c.paddr &&& pteAddrMask := by
  unfold Entry.fromConfig
  simp (disch := decide) only [orIf_and]
  rw [Nat.and_assoc, Nat.and_self]

theorem paddr_and {flag : Nat} (h : pteAddrMask &&& flag = 0) (paddr : Nat) : paddr &&& pteAddrMask &&& flag = 0 := by
  rw [Nat.and_assoc, h, Nat.and_zero]

theorem fromConfig_present (c : PteConfig) :
    (Entry.fromConfig c).bits &&& ptePresent = if c.valid then ptePresent else 0 := by
  unfold Entry.fromConfig
  simp (disch := decide) only [orIf_and, orIf_and_self, paddr_and]

theorem fromConfig_huge (c : PteConfig) :
    (Entry.fromConfig c).bits &&& pteHuge = if c.isDir && c.huge then pteHuge else 0 := by
  unfold Entry.fromConfig
  simp (disch := decide) only [orIf_and, orIf_and_self, paddr_and]

theorem toConfig_valid (entry : Entry) (isDir : Bool) :
    (toConfig entry isDir).valid = (entry.bits &&& ptePresent != 0) := rfl

theorem toConfig_huge (entry : Entry) (isDir : Bool) :
    (toConfig entry isDir).huge = (isDir && entry.bits &&& pteHuge != 0) := rfl

theorem fromConfig_valid (c : PteConfig) (isDir : Bool) :
    (toConfig (fromConfig c : Entry) isDir).valid = c.valid := by
  rw [toConfig_valid]
  show ((Entry.fromConfig c).bits &&& ptePresent != 0) = c.valid
  rw [fromConfig_present]
  cases c.valid <;> rfl

theorem validIndependent : ValidIndependent Entry := fun _ => rfl

theorem roundTrips : RoundTrips generic (2 ^ 52) where
  zeroed isDir := rfl
  zeroed_valid := rfl
  invalid isDir := fromConfig_valid invalidConfig isDir
  invalid_valid := fromConfig_valid invalidConfig true
  valid level c hc := (fromConfig_valid c c.isDir).trans hc.valid
  huge level c hc := by
    rw [toConfig_huge]
    show (c.isDir && (Entry.fromConfig c).bits &&& pteHuge != 0) = c.huge
    rw [fromConfig_huge]
    cases hhuge : c.huge with
    | false => cases c.isDir <;> rfl
    | true => rw [hc.isDir_of_lt (hc.huge hhuge).1]; rfl
  paddr level c hc := by
    show (Entry.fromConfig c).bits &&& pteAddrMask = c.paddr
    rw [fromConfig_addr, and_pteAddrMask hc.aligned hc.below]
  bit level c hc := (fromConfig_valid c true).trans hc.valid

theorem toConfig_flags {c : PteConfig} (hleaf : c.isDir = false ∨ c.huge = true) (isDir : Bool) :
    (toConfig (fromConfig c : Entry) isDir).writable = c.writable ∧
      (toConfig (fromConfig c : Entry) isDir).executable = c.executable ∧
      (toConfig (fromConfig c : Entry) isDir).lower = c.lower ∧
      (toConfig (fromConfig c : Entry) isDir).global = c.global := by
  have hisLeaf : (!c.isDir || c.huge) = true := by
    rcases hleaf with h | h <;> simp [h]
  show ((Entry.fromConfig c).bits &&& pteWritable != 0) = c.writable ∧
    ((Entry.fromConfig c).bits &&& pteNoExecute == 0) = c.executable ∧
    ((Entry.fromConfig c).bits &&& pteUser != 0) = c.lower ∧
    ((Entry.fromConfig c).bits &&& pteGlobal != 0) = c.global
  unfold Entry.fromConfig
  simp (disch := decide) only [orIf_and, orIf_and_self, paddr_and, hisLeaf, Bool.true_and]
  refine ⟨?_, ?_, ?_, ?_⟩
  · cases c.writable <;> rfl
  · cases c.executable <;> rfl
  · cases c.lower <;> rfl
  · cases c.global <;> rfl

theorem keepsKinds : KeepsKinds generic (2 ^ 52) where
  base c hc _ := ⟨(fromConfig_addr c).trans (and_pteAddrMask hc.aligned hc.below),
    (fromConfig_valid c false).trans hc.valid, rfl⟩
  table c hc hdir hhuge := by
    refine ⟨(fromConfig_addr c).trans (and_pteAddrMask hc.aligned hc.below),
      (fromConfig_valid c true).trans hc.valid, ?_⟩
    rw [toConfig_huge]
    show (true && (Entry.fromConfig c).bits &&& pteHuge != 0) = false
    simp [fromConfig_huge, hhuge]
  leaf c _ hleaf := toConfig_flags hleaf c.isDir
  huge c _ hdir hhuge _ := by
    rw [toConfig_huge]
    show (true && (Entry.fromConfig c).bits &&& pteHuge != 0) = true
    rw [fromConfig_huge, hdir, hhuge]
    decide

/-! ### A table to run -/

abbrev bump : FrameAllocator := .bump

theorem bump_fresh : bump.Fresh generic (2 ^ 52) := FrameAllocator.bump_fresh rfl

def root : PhysAddr := 0x100000

def blank : Machine Entry := ⟨fun _ _ => ⟨0⟩, [], []⟩

/-- The machine after `PageTableRef::new`. -/
def start : Machine Entry := (PageTableRef.new bump blank).2

theorem reachable_start : Reachable generic bump (2 ^ 52) root start :=
  .new rfl (Prod.ext (by decide) rfl : PageTableRef.new bump blank = (.ok root, start))

/-- A request for `size` bytes of writable memory. -/
def request (vaddr paddr size : Nat) (allowHuge : Bool) : MapConfig where
  vaddr := vaddr
  paddr := paddr
  size := size
  pte := { valid := true, read := true, writable := true }
  allowHuge := allowHuge
  flush := false

/-- The machine after a call of `map`. -/
def mapped (config : MapConfig) (m : Machine Entry) : Machine Entry :=
  (PageTableRef.map generic bump root config m).2

variable {m : Machine Entry}

theorem map_eq {config : MapConfig} {r : Except Fault Unit}
    (h : (PageTableRef.map generic bump root config m).1 = r) :
    PageTableRef.map generic bump root config m = (r, mapped config m) :=
  Prod.ext h rfl

theorem reachable_mapped (hm : Reachable generic bump (2 ^ 52) root m) {config : MapConfig}
    (hlimit : config.paddr + config.size ≤ 2 ^ 52) (hok : (PageTableRef.map generic bump root config m).1 = .ok ()) :
    Reachable generic bump (2 ^ 52) root (mapped config m) :=
  .map hm hlimit (map_eq hok) trivial

/-- The machine after a call of `unmap`. -/
def unmapped (startVaddr size : Nat) (m : Machine Entry) : Machine Entry :=
  (PageTableRef.unmap generic root startVaddr size m).2

theorem unmap_eq {startVaddr size : Nat} {r : Except Fault Unit}
    (h : (PageTableRef.unmap generic root startVaddr size m).1 = r) :
    PageTableRef.unmap generic root startVaddr size m = (r, unmapped startVaddr size m) :=
  Prod.ext h rfl

/-- One 4 KiB page, at `0x200000`. -/
def page : MapConfig := request 0x200000 0x5000 0x1000 false

theorem reachable_page : Reachable generic bump (2 ^ 52) root (mapped page start) :=
  reachable_mapped reachable_start (by decide) (by decide +kernel)

/-- One 2 MiB page, at `0x200000`. -/
def hugePage : MapConfig := request 0x200000 0x400000 0x200000 true

theorem reachable_hugePage : Reachable generic bump (2 ^ 52) root (mapped hugePage start) :=
  reachable_mapped reachable_start (by decide) (by decide +kernel)

end Sparreal.X86
