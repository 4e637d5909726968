import Sparreal.Arch.X86

/-!
# RISC-V page-table entries

`Entry` and `Generic` of `someboot/src/arch/riscv64/mod.rs`, Sv39. The architecture has no bit for the kind of an
entry: one that grants nothing is a pointer to a table, any other a page. So the encoder writes no permission into
a pointer to a table whatever its template asks for, and a huge page is told from a table by what it grants. The
codec keeps the contract of the generic page table (`roundTrips`) and, as the x86_64 one does, keeps the three
kinds of entries apart (`kinds_apart`).
-/

namespace Sparreal.RiscV

open Sparreal.Paging BitField

def sv39PpnShift : Nat := 10

def pteV : Nat := 1 <<< 0

def pteR : Nat := 1 <<< 1

def pteW : Nat := 1 <<< 2

def pteX : Nat := 1 <<< 3

def pteU : Nat := 1 <<< 4

def pteG : Nat := 1 <<< 5

def pteA : Nat := 1 <<< 6

def pteD : Nat := 1 <<< 7

/-- `Entry(usize)`. -/
structure Entry where
  bits : Nat
  deriving DecidableEq, Repr

/-- The flags `Entry::from_config` has collected when it comes to the address. -/
def flagBits (config : PteConfig) : Nat :=
  let bits := pteV
  let isLeaf := !config.isDir || config.huge
  if isLeaf then
    let bits := orIf config.read pteR bits
    let bits := orIf config.writable pteW bits
    let bits := orIf config.executable pteX bits
    let bits := orIf config.lower pteU bits
    let bits := orIf config.global pteG bits
    let bits := orIf config.valid pteA bits
    orIf (config.writable || config.dirty) pteD bits
  else bits

def Entry.fromConfig (config : PteConfig) : Entry :=
  if !config.valid then ⟨0⟩
  else ⟨flagBits config ||| (config.paddr >>> 12) <<< sv39PpnShift⟩

def Entry.toConfig (entry : Entry) (isDir : Bool) : PteConfig :=
  let read := entry.bits &&& pteR != 0
  let writable := entry.bits &&& pteW != 0
  let executable := entry.bits &&& pteX != 0
  { paddr := (entry.bits >>> sv39PpnShift) <<< 12
    valid := entry.bits &&& pteV != 0
    read := read
    writable := writable
    executable := executable
    lower := entry.bits &&& pteU != 0
    dirty := entry.bits &&& pteD != 0
    global := entry.bits &&& pteG != 0
    isDir := isDir
    huge := isDir && (read || writable || executable)
    memAttr := .normal }

instance : PageTableEntry Entry where
  fromConfig := Entry.fromConfig
  toConfig := Entry.toConfig
  valid entry := entry.bits &&& pteV != 0
  zeroed := ⟨0⟩

theorem threeLevels_pos : 0 < [9, 9, 9].length := by decide

theorem threeLevels_len : ∀ bits ∈ [9, 9, 9], 2 ^ 12 / 8 = 2 ^ bits := by decide

def generic : TableMeta Entry where
  pageShift := 12
  levelBits := [9, 9, 9]
  maxBlockLevel := 1
  entrySize := 8
  levels_pos := threeLevels_pos
  table_len := threeLevels_len

/-! ### What the decoder sees of an encoded entry -/

section Decode

variable {c : PteConfig}

theorem flagBits_lt (c : PteConfig) : flagBits c < 2 ^ sv39PpnShift := by
  simp only [flagBits]
  split
  · repeat' apply orIf_lt
    all_goals decide
  · decide

theorem bits_eq (hvalid : c.valid = true) :
    (Entry.fromConfig c).bits = flagBits c ||| (c.paddr >>> 12) <<< sv39PpnShift := by
  unfold Entry.fromConfig
  rw [if_neg (by simp [hvalid])]

theorem bits_and {flag : Nat} (hvalid : c.valid = true) (hflag : flag < 2 ^ sv39PpnShift) :
    (Entry.fromConfig c).bits &&& flag = flagBits c &&& flag := by
  rw [bits_eq hvalid, Nat.and_or_distrib_right, shiftLeft_and_of_lt hflag, Nat.or_zero]

theorem toConfig_paddr (hc : Storable generic (2 ^ 56) c) (isDir : Bool) :
    (toConfig (fromConfig c : Entry) isDir).paddr = c.paddr := by
  show ((Entry.fromConfig c).bits >>> sv39PpnShift) <<< 12 = c.paddr
  have hflags : flagBits c >>> sv39PpnShift = 0 := by
    rw [Nat.shiftRight_eq_div_pow, Nat.div_eq_of_lt (flagBits_lt c)]
  rw [bits_eq hc.valid, Nat.shiftRight_or_distrib, hflags, Nat.zero_or, Nat.shiftLeft_shiftRight,
    Nat.shiftRight_eq_div_pow, Nat.shiftLeft_eq]
  exact Nat.div_mul_cancel hc.aligned

theorem toConfig_valid (hvalid : c.valid = true) (isDir : Bool) :
    (toConfig (fromConfig c : Entry) isDir).valid = true := by
  show ((Entry.fromConfig c).bits &&& pteV != 0) = true
  rw [bits_and hvalid (by decide)]
  simp only [flagBits]
  split
  · simp (disch := decide) only [orIf_and]
    decide
  · decide

theorem toConfig_table (hvalid : c.valid = true) (hdir : c.isDir = true) (hhuge : c.huge = false) (isDir : Bool) :
    (toConfig (fromConfig c : Entry) isDir).huge = false := by
  have hflags : flagBits c = pteV := by simp [flagBits, hdir, hhuge]
  show (isDir && ((Entry.fromConfig c).bits &&& pteR != 0 || (Entry.fromConfig c).bits &&& pteW != 0 ||
    (Entry.fromConfig c).bits &&& pteX != 0)) = false
  rw [bits_and hvalid (by decide), bits_and hvalid (by decide), bits_and hvalid (by decide), hflags]
  cases isDir <;> decide

theorem toConfig_leaf (hvalid : c.valid = true) (hleaf : c.isDir = false ∨ c.huge = true) (isDir : Bool) :
    (toConfig (fromConfig c : Entry) isDir).read = c.read ∧
      (toConfig (fromConfig c : Entry) isDir).writable = c.writable ∧
      (toConfig (fromConfig c : Entry) isDir).executable = c.executable ∧
      (toConfig (fromConfig c : Entry) isDir).lower = c.lower ∧
      (toConfig (fromConfig c : Entry) isDir).global = c.global := by
  have hisLeaf : (!c.isDir || c.huge) = true := by
    rcases hleaf with h | h <;> simp [h]
  show ((Entry.fromConfig c).bits &&& pteR != 0) = c.read ∧ ((Entry.fromConfig c).bits &&& pteW != 0) = c.writable ∧
    ((Entry.fromConfig c).bits &&& pteX != 0) = c.executable ∧ ((Entry.fromConfig c).bits &&& pteU != 0) = c.lower ∧
    ((Entry.fromConfig c).bits &&& pteG != 0) = c.global
  simp (disch := decide) only [bits_and hvalid]
  unfold flagBits
  simp (disch := decide) only [hisLeaf, if_true, orIf_and, orIf_and_self]
  refine ⟨?_, ?_, ?_, ?_, ?_⟩
  · cases c.read <;> rfl
  · cases c.writable <;> rfl
  · cases c.executable <;> rfl
  · cases c.lower <;> rfl
  · cases c.global <;> rfl

end Decode

/-! ### The contract -/

theorem toConfig_huge (entry : Entry) (isDir : Bool) :
    (toConfig entry isDir).huge = (isDir && ((toConfig entry isDir).read || (toConfig entry isDir).writable ||
      (toConfig entry isDir).executable)) := rfl

theorem keepsKinds : KeepsKinds generic (2 ^ 56) where
  base c hc _ := ⟨toConfig_paddr hc false, toConfig_valid hc.valid false, rfl⟩
  table c hc hdir hhuge :=
    ⟨toConfig_paddr hc true, toConfig_valid hc.valid true, toConfig_table hc.valid hdir hhuge true⟩
  leaf c hc hleaf := (toConfig_leaf hc.valid hleaf c.isDir).2
  huge c hc hdir hhuge hgrants := by
    obtain ⟨hread, hwritable, hexecutable, -⟩ := toConfig_leaf hc.valid (.inr hhuge) true
    rw [toConfig_huge, hread, hwritable, hexecutable]
    rcases hgrants with h | h | h <;> simp [h]

/-- RISC-V entries keep address, validity and kind: above the leaf level there are only tables. -/
theorem roundTrips : RoundTrips generic (2 ^ 56) where
  zeroed isDir := rfl
  zeroed_valid := rfl
  invalid isDir := rfl
  invalid_valid := rfl
  valid level c hc := toConfig_valid hc.valid c.isDir
  huge level c hc := by
    have hhuge : c.huge = false := by
      by_contra h
      have hlevel := hc.huge (by simpa using h)
      have hmax : generic.maxBlockLevel = 1 := rfl
      omega
    rw [hhuge]
    cases hdir : c.isDir with
    | false => rfl
    | true => exact toConfig_table hc.valid hdir hhuge true
  paddr level c hc := toConfig_paddr ⟨hc.valid, hc.aligned, hc.below⟩ c.isDir
  bit level c hc := toConfig_valid hc.valid true

/-- Both codecs keep base pages, huge pages and pointers to tables apart, for every template. -/
theorem kinds_apart : KeepsKinds X86.generic (2 ^ 52) ∧ KeepsKinds generic (2 ^ 56) :=
  ⟨X86.keepsKinds, keepsKinds⟩

/-- A template that allows writing. -/
def writable : PteConfig := { paddr := 0x40000000, valid := true, writable := true }

/-- One template, encoded as a huge page and as a pointer to a table, is told apart by both codecs. -/
theorem kinds_apart_writable :
    (toConfig (fromConfig { writable with isDir := true, huge := true } : X86.Entry) true).huge = true ∧
      (toConfig (fromConfig { writable with isDir := true } : X86.Entry) true).huge = false ∧
      (toConfig (fromConfig { writable with isDir := true, huge := true } : Entry) true).huge = true ∧
      (toConfig (fromConfig { writable with isDir := true } : Entry) true).huge = false :=
  ⟨kinds_apart.1.huge _ ⟨rfl, by decide, by decide⟩ rfl rfl (.inr (.inl rfl)),
    (kinds_apart.1.table _ ⟨rfl, by decide, by decide⟩ rfl rfl).2.2,
    kinds_apart.2.huge _ ⟨rfl, by decide, by decide⟩ rfl rfl (.inr (.inl rfl)),
    (kinds_apart.2.table _ ⟨rfl, by decide, by decide⟩ rfl rfl).2.2⟩

end Sparreal.RiscV
