import Sparreal.Lib.BitField
import Sparreal.Paging.Contract

/-!
# AArch64 page-table entries

`Entry` of `someboot/src/arch/aarch64/paging/pte.rs`, without the `hv` feature. The permission bits of the
architecture are negative ones: `AP_RO`, `PXN`, `UXN`, `NG`. The encoder sets each where the configuration denies
what the bit denies, and the decoder negates each on the way back, all but one: `writable` is read as `AP_RO` itself.
So everything but that flag survives (`roundTrip_iff`), and a mapping that is decoded and encoded again has become
writable if it was read-only, and read-only if it was writable.
-/

namespace Sparreal.AArch64

open Sparreal.Paging BitField

/-! ### The fields of an entry -/

def valid : BitField := ⟨0, 1⟩

def nonBlock : BitField := ⟨1, 1⟩

def mair : BitField := ⟨2, 3⟩

def apEl0 : BitField := ⟨6, 1⟩

def apRo : BitField := ⟨7, 1⟩

def shareable : BitField := ⟨8, 2⟩

def af : BitField := ⟨10, 1⟩

def ng : BitField := ⟨11, 1⟩

def physAddr : BitField := ⟨12, 36⟩

def pxn : BitField := ⟨53, 1⟩

def uxn : BitField := ⟨54, 1⟩

/-- `SHAREABLE::NON`. -/
def shareableNon : Nat := 0b00

/-- `SHAREABLE::OUTER`. -/
def shareableOuter : Nat := 0b10

/-- The index into `MAIR_EL1`. -/
def mairOf : MemAttributes → Nat
  | .device => 0
  | .normal | .perCpu => 1
  | .uncached => 2

def shareableOf : MemAttributes → Nat
  | .perCpu => shareableNon
  | .device | .normal | .uncached => shareableOuter

/-! ### Encoding and decoding -/

/-- `Entry(u64)`. -/
structure Entry where
  bits : Nat
  deriving DecidableEq, Repr

def Entry.fromConfig (config : PteConfig) : Entry :=
  if !config.valid then ⟨0⟩
  else
    let val := valid.set
    let val := orIf config.read af.set val
    let val := val ||| physAddr.val (config.paddr >>> 12)
    let val := orIf (!config.huge) nonBlock.set val
    let val := orIf (!config.writable) apRo.set val
    let val :=
      if config.lower then orIf (!config.executable) uxn.set (val ||| (apEl0.set ||| pxn.set))
      else orIf (!config.executable) pxn.set (val ||| uxn.set)
    let val := orIf (!config.global) ng.set val
    let val := orIf config.dirty af.set val
    ⟨val ||| (mair.val (mairOf config.memAttr) ||| shareable.val (shareableOf config.memAttr))⟩

def Entry.toConfig (entry : Entry) (isDir : Bool) : PteConfig :=
  let lower := apEl0.isSet entry.bits
  { paddr := physAddr.read entry.bits <<< 12
    valid := valid.isSet entry.bits
    read := af.isSet entry.bits
    writable := apRo.isSet entry.bits
    executable := if lower then !uxn.isSet entry.bits else !pxn.isSet entry.bits
    lower := lower
    dirty := af.isSet entry.bits
    global := !ng.isSet entry.bits
    isDir := isDir
    huge := !nonBlock.isSet entry.bits
    memAttr :=
      let attr : MemAttributes :=
        match mair.read entry.bits with
        | 0 => .device
        | 1 => .normal
        | 2 => .uncached
        | _ => .normal
      if shareable.read entry.bits == shareableOuter then attr else .perCpu }

instance : PageTableEntry Entry where
  fromConfig := Entry.fromConfig
  toConfig := Entry.toConfig
  valid entry := valid.isSet entry.bits
  zeroed := ⟨0⟩

/-! ### What the decoder sees of an encoded entry -/

section Fields

variable {c : PteConfig}

variable (hvalid : c.valid = true)

include hvalid

theorem read_physAddr : physAddr.read (Entry.fromConfig c).bits = (c.paddr >>> 12) % 2 ^ 36 := by
  unfold Entry.fromConfig
  cases c.lower <;>
    simp (disch := decide) [hvalid, read_or, read_orIf, read_val, read_val_of_apart, read_set_of_apart] <;>
    rfl

theorem read_attributes : mair.read (Entry.fromConfig c).bits = mairOf c.memAttr ∧
    shareable.read (Entry.fromConfig c).bits = shareableOf c.memAttr := by
  have hfit : mairOf c.memAttr % 2 ^ 3 = mairOf c.memAttr ∧ shareableOf c.memAttr % 2 ^ 2 = shareableOf c.memAttr := by
    cases c.memAttr <;> decide
  unfold Entry.fromConfig
  cases c.lower <;>
    simp (disch := decide) [hvalid, read_or, read_orIf, read_val, read_val_of_apart, read_set_of_apart] <;>
    exact hfit

theorem toConfig_memAttr (isDir : Bool) : ((Entry.fromConfig c).toConfig isDir).memAttr = c.memAttr := by
  simp only [Entry.toConfig, read_attributes hvalid]
  cases c.memAttr <;> rfl

theorem toConfig_fromConfig (isDir : Bool) :
    (Entry.fromConfig c).toConfig isDir =
      { c with
        paddr := ((c.paddr >>> 12) % 2 ^ 36) <<< 12
        read := c.read || c.dirty
        dirty := c.read || c.dirty
        writable := !c.writable
        isDir := isDir } := by
  have hattr := toConfig_memAttr hvalid isDir
  have hpaddr := read_physAddr hvalid
  simp only [Entry.toConfig] at hattr ⊢
  rw [hattr, hpaddr]
  unfold Entry.fromConfig
  cases c.lower <;>
    simp (disch := decide) [hvalid, isSet_or, isSet_orIf, isSet_set, isSet_val_of_apart, isSet_set_of_apart]

end Fields

/-! ### Which fields survive -/

/-- The fields of a configuration that an entry is meant to hold. -/
inductive Field
  | paddr | valid | writable | executable | lower | global | huge | memAttr
  deriving DecidableEq, Repr

def Field.Agrees (field : Field) (c d : PteConfig) : Prop :=
  match field with
  | .paddr => c.paddr = d.paddr
  | .valid => c.valid = d.valid
  | .writable => c.writable = d.writable
  | .executable => c.executable = d.executable
  | .lower => c.lower = d.lower
  | .global => c.global = d.global
  | .huge => c.huge = d.huge
  | .memAttr => c.memAttr = d.memAttr

/-- Decoding an encoded entry gives back every field of a valid, readable configuration but `writable`, which
comes back negated whatever the configuration; an invalid configuration decodes as not valid. -/
theorem roundTrip_iff (c : PteConfig) (isDir : Bool) :
    (c.valid = true → c.read = true → 2 ^ 12 ∣ c.paddr → c.paddr < 2 ^ 48 →
      ∀ field : Field, field.Agrees (toConfig (fromConfig c : Entry) isDir) c ↔ field ≠ .writable) ∧
    (c.valid = false → (toConfig (fromConfig c : Entry) isDir).valid = false) := by
  constructor
  · intro hvalid _ haligned hlt field
    have hdecoded : toConfig (fromConfig c : Entry) isDir = _ := toConfig_fromConfig hvalid isDir
    rw [hdecoded]
    cases field with
    | paddr => exact iff_of_true (shiftRight_mod_shiftLeft haligned hlt) (by decide)
    | writable => simp [Field.Agrees]
    | valid | executable | lower | global | huge | memAttr => simp [Field.Agrees]
  · intro hvalid
    show valid.isSet (Entry.fromConfig c).bits = false
    unfold Entry.fromConfig
    rw [if_pos (by simp [hvalid])]
    decide

def readOnly : PteConfig :=
  { paddr := 0x5000, valid := true, read := true, global := true }

/-- Both parts at work: a read-only page keeps its address, and an empty entry is not valid. -/
theorem roundTrip_readOnly :
    (readOnly.valid = true ∧ readOnly.read = true ∧ 2 ^ 12 ∣ readOnly.paddr ∧ readOnly.paddr < 2 ^ 48) ∧
      Field.paddr.Agrees (toConfig (fromConfig readOnly : Entry) false) readOnly ∧
      invalidConfig.valid = false ∧ (toConfig (fromConfig invalidConfig : Entry) false).valid = false :=
  ⟨by decide, ((roundTrip_iff readOnly false).1 rfl rfl (by decide) (by decide) .paddr).2 (by decide), rfl,
    (roundTrip_iff invalidConfig false).2 rfl⟩

/-- Decoded and encoded again, a read-only page has become writable. -/
theorem readOnly_decodes_writable :
    readOnly.writable = false ∧ (toConfig (fromConfig readOnly : Entry) false).writable = true := by
  decide

end Sparreal.AArch64
