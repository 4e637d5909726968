import Sparreal.Lib.BitField
import Sparreal.Paging.Lost

/-!
# LoongArch64 page-table entries

`Entry` of `someboot/src/arch/loongarch64/pte.rs` and `Generic` of `paging.rs`. A pointer to a table is
the address of the table and nothing else, as the hardware walker asks for; the decoder takes the bit
that is the valid bit of a page for the valid bit of every entry. So no pointer to a table reads back as
valid (`toConfig_directory`), and the page table forgets every table it links.
-/

namespace Sparreal.LoongArch

open Sparreal.Paging BitField

/-! ### The fields of an entry -/

/-- `VALID` of `PTE` and `PTE_DIR`. -/
def valid : BitField := ⟨0, 1⟩

def dirty : BitField := ⟨1, 1⟩

def plv : BitField := ⟨2, 2⟩

def cache : BitField := ⟨4, 2⟩

/-- `PTE_DIR::H`. -/
def dirH : BitField := ⟨6, 1⟩

/-- `PTE::G`. -/
def pteG : BitField := ⟨6, 1⟩

def present : BitField := ⟨7, 1⟩

def write : BitField := ⟨8, 1⟩

/-- `PTE_DIR::G`, the lowest bit of the address field. -/
def dirG : BitField := ⟨12, 1⟩

def physAddr : BitField := ⟨12, 40⟩

def noRead : BitField := ⟨61, 1⟩

def noExec : BitField := ⟨62, 1⟩

def plv3 : Nat := 0b11

/-- The values of `CACHE`: `SUC`, `CC` and `WUC`. -/
def cacheOf : MemAttributes → Nat
  | .device => 0b00
  | .normal | .perCpu => 0b01
  | .uncached => 0b10

/-! ### Encoding and decoding -/

/-- `Entry(u64)`. -/
structure Entry where
  bits : Nat
  deriving DecidableEq, Repr

/-- The flags and the address of a page; a huge page starts from `H` and has its global bit elsewhere. -/
def fromPage (start : Nat) (g : BitField) (config : PteConfig) : Nat :=
  let val := orIf config.valid (valid.set ||| present.set) start
  let val := orIf (!config.read) noRead.set val
  let val := orIf config.writable (write.set ||| dirty.set) val
  let val := orIf (!config.executable) noExec.set val
  let val := orIf config.lower (plv.val plv3) val
  let val := val ||| physAddr.val (config.paddr >>> 12)
  let val := orIf config.global g.set val
  val ||| cache.val (cacheOf config.memAttr)

def Entry.fromHuge (config : PteConfig) : Nat := fromPage dirH.set dirG config

def Entry.fromDir (config : PteConfig) : Nat := physAddr.val (config.paddr >>> 12)

def Entry.fromBase (config : PteConfig) : Nat := fromPage 0 pteG config

def Entry.fromConfig (config : PteConfig) : Entry :=
  ⟨if config.isDir then
      if config.huge then Entry.fromHuge config else Entry.fromDir config
    else Entry.fromBase config⟩

def Entry.toConfig (entry : Entry) (isDir : Bool) : PteConfig :=
  let huge := isDir && dirH.isSet entry.bits
  let paddr := physAddr.read entry.bits <<< 12
  { paddr := if huge then paddr / 0x2000 * 0x2000 else paddr
    valid := valid.isSet entry.bits
    read := valid.isSet entry.bits
    writable := write.isSet entry.bits
    executable := !noExec.isSet entry.bits
    lower := plv.read entry.bits == plv3
    dirty := dirty.isSet entry.bits
    global := if huge then dirG.isSet entry.bits else pteG.isSet entry.bits
    isDir := isDir
    huge := huge
    memAttr :=
      match cache.read entry.bits with
      | 0b00 => .device
      | 0b01 => .normal
      | 0b10 => .uncached
      | _ => .normal }

instance : PageTableEntry Entry where
  fromConfig := Entry.fromConfig
  toConfig := Entry.toConfig
  valid entry := valid.isSet entry.bits
  zeroed := ⟨0⟩

/-- `Generic`, with pages of 4 KiB. -/
def generic : TableMeta Entry where
  pageShift := 12
  levelBits := [9, 9, 9, 9]
  maxBlockLevel := 1
  entrySize := 8
  levels_pos := fourLevels_pos
  table_len := fourLevels_len

theorem addressable : generic.Addressable generic.ptLevel := by
  unfold TableMeta.Addressable
  decide

/-! ### Pointers to tables -/

/-- A pointer to a table reads back with its address and its kind, but invalid. -/
theorem toConfig_directory (config : PteConfig) (hdir : config.isDir = true)
    (hhuge : config.huge = false) :
    (toConfig (fromConfig config : Entry) true).valid = false ∧
      (toConfig (fromConfig config : Entry) true).huge = false ∧
      (toConfig (fromConfig config : Entry) true).paddr = ((config.paddr >>> 12) % 2 ^ 40) <<< 12 := by
  have hbits : (fromConfig config : Entry).bits = physAddr.val (config.paddr >>> 12) := by
    show (Entry.fromConfig config).bits = _
    rw [Entry.fromConfig, if_pos hdir, if_neg (by rw [hhuge]; decide), Entry.fromDir]
  have hvalid : (toConfig (fromConfig config : Entry) true).valid = false := by
    show valid.isSet (fromConfig config : Entry).bits = false
    rw [hbits, isSet_val_of_apart (by decide)]
  have hnotHuge : (toConfig (fromConfig config : Entry) true).huge = false := by
    show dirH.isSet (fromConfig config : Entry).bits = false
    rw [hbits, isSet_val_of_apart (by decide)]
  refine ⟨hvalid, hnotHuge, ?_⟩
  show (if (toConfig (fromConfig config : Entry) true).huge then _ else
    physAddr.read (fromConfig config : Entry).bits <<< 12) = _
  rw [if_neg (by rw [hnotHuge]; decide), hbits, physAddr.read_val]
  rfl

theorem losesDirectories : LosesDirectories generic where
  zeroed := by decide
  directory template frame := (toConfig_directory (template.directory frame) rfl rfl).1
  noBlocks := by decide

/-! ### A table to run -/

def root : PhysAddr := 0x100000

/-- The machine after `PageTableRef::new`. -/
def start : Machine Entry := (PageTableRef.new .bump ⟨fun _ _ => ⟨0⟩, [], []⟩).2

theorem reachable_start : Reachable generic .bump (2 ^ 52) root start :=
  .new rfl (Prod.ext (by decide) rfl :
    PageTableRef.new .bump ⟨fun _ _ => ⟨0⟩, [], []⟩ = (.ok root, start))

/-- A request for one page of writable memory. -/
def request (vaddr paddr : Nat) : MapConfig where
  vaddr := vaddr
  paddr := paddr
  size := 0x1000
  pte := { valid := true, read := true, writable := true }
  allowHuge := false
  flush := false

/-- The machine after a call of `map`. -/
def mapped (config : MapConfig) (m : Machine Entry) : Machine Entry :=
  (PageTableRef.map generic .bump root config m).2

/-! ### Pointers to tables are lost -/

/-- No pointer to a table ever reads back as valid: address and kind survive, the valid bit does not.
On a reachable table no address ever translates. -/
theorem directory_lost {config : PteConfig} (hdir : config.isDir = true) (hhuge : config.huge = false)
    (haligned : 2 ^ 12 ∣ config.paddr) (hlt : config.paddr < 2 ^ 48) {A : FrameAllocator} {limit : Nat}
    {root : PhysAddr} {m : Machine Entry} (hA : A.Fresh generic limit)
    (hm : Reachable generic A limit root m) (a : Nat) :
    ((toConfig (fromConfig config : Entry) true).valid = false ∧
        (toConfig (fromConfig config : Entry) true).huge = false ∧
        (toConfig (fromConfig config : Entry) true).paddr = config.paddr) ∧
      PageTableRef.isMapped generic m root a = false := by
  constructor
  · obtain ⟨hvalid, hnotHuge, hpaddr⟩ := toConfig_directory config hdir hhuge
    exact ⟨hvalid, hnotHuge, hpaddr.trans (shiftRight_mod_shiftLeft haligned (hlt.trans (by decide)))⟩
  · rw [PageTableRef.isMapped, hm.notMapped losesDirectories hA (by decide) addressable a]
    rfl

/-- The pointer to the table at `0x101000`. -/
def pointer : PteConfig := { paddr := 0x101000, valid := true, isDir := true }

/-- The pointer, and the table after one page has been mapped. -/
theorem directory_lost_page :
    ((toConfig (fromConfig pointer : Entry) true).valid = false ∧
        (toConfig (fromConfig pointer : Entry) true).huge = false ∧
        (toConfig (fromConfig pointer : Entry) true).paddr = 0x101000) ∧
      PageTableRef.isMapped generic (mapped (request 0x200000 0x5000) start) root 0x200000 = false := by
  have hok : PageTableRef.map generic .bump root (request 0x200000 0x5000) start =
      (.ok (), mapped (request 0x200000 0x5000) start) := Prod.ext (by decide +kernel) rfl
  have hm : Reachable generic .bump (2 ^ 52) root (mapped (request 0x200000 0x5000) start) :=
    .map reachable_start (by decide) hok trivial
  exact directory_lost rfl rfl (by decide) (by decide) (FrameAllocator.bump_fresh rfl) hm 0x200000

/-- Two disjoint pages are mapped, both calls return `Ok`, and neither page translates. -/
theorem maps_lost :
    (PageTableRef.map generic .bump root (request 0x200000 0x5000) start).1 = .ok () ∧
      (PageTableRef.map generic .bump root (request 0x201000 0x6000)
        (mapped (request 0x200000 0x5000) start)).1 = .ok () ∧
      PageTableRef.isMapped generic (mapped (request 0x201000 0x6000)
        (mapped (request 0x200000 0x5000) start)) root 0x200000 = false ∧
      PageTableRef.isMapped generic (mapped (request 0x201000 0x6000)
        (mapped (request 0x200000 0x5000) start)) root 0x201000 = false := by
  decide +kernel

end Sparreal.LoongArch
