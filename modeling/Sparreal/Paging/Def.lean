import Sparreal.Lib.Exec
import Sparreal.Lib.Ledger
import Mathlib.Algebra.BigOperators.Group.List.Basic
import Mathlib.Data.List.GetD
import Mathlib.Data.Nat.Log
import Mathlib.Algebra.Group.Action.Defs
import Mathlib.Tactic.Ring
import Mathlib.Tactic.NormNum

/-!
# Page tables: entries, table layouts and addresses

The data of `page-table-generic`: `PteConfig` and `PagingError` (`def.rs`), the traits
`PageTableEntry`, `TableMeta` and `FrameAllocator` (`lib.rs`), and the address arithmetic of a
table layout (`level_size`, `virt_to_index`, `reconstruct_vaddr` of `frame.rs`).

Addresses and sizes are `Nat`; wherever the source computes with `usize` and the result may leave
64 bits the model says what happens there (`addUsize` stops with a panic, as a build with overflow
checks does; the saturating operations of the source saturate).
-/

namespace Sparreal.Paging

abbrev usizeRange : Nat := 2 ^ 64

/-- `usize::MAX`. -/
abbrev usizeMax : Nat := 2 ^ 64 - 1

/-- The physical address of a frame. -/
abbrev PhysAddr := Nat

/-- `PagingError` of `def.rs`. -/
inductive PagingError where
  | noMemory
  | alignmentError (details : String)
  | mappingConflict (vaddr : Nat) (existingPaddr : Nat)
  | addressOverflow (details : String)
  | invalidSize (details : String)
  | hierarchyError (details : String)
  | invalidRange (details : String)
  | notMapped
  deriving DecidableEq, Repr

/-- Why a computation stops: it returns `Err`, it panics, or the bound on the iterations of a loop
of the model was too small. -/
inductive Fault where
  | err (e : PagingError)
  | panic
  | diverge
  deriving DecidableEq, Repr

def addUsize (a b : Nat) : Except Fault Nat :=
  if a + b < usizeRange then .ok (a + b) else .error .panic

def mulUsize (a b : Nat) : Except Fault Nat :=
  if a * b < usizeRange then .ok (a * b) else .error .panic

theorem addUsize_eq_ok {a b c : Nat} : addUsize a b = .ok c ↔ a + b < usizeRange ∧ c = a + b := by
  unfold addUsize
  split_ifs with h
  · simp [h, eq_comm]
  · simp [h]

theorem mulUsize_eq_ok {a b c : Nat} : mulUsize a b = .ok c ↔ a * b < usizeRange ∧ c = a * b := by
  unfold mulUsize
  split_ifs with h
  · simp [h, eq_comm]
  · simp [h]

theorem addUsize_eq_error {a b : Nat} {fault : Fault} :
    addUsize a b = .error fault ↔ usizeRange ≤ a + b ∧ fault = .panic := by
  unfold addUsize
  split_ifs with h
  · simp [h]
  · simp [not_lt.mp h, eq_comm]

theorem mulUsize_eq_error {a b : Nat} {fault : Fault} :
    mulUsize a b = .error fault ↔ usizeRange ≤ a * b ∧ fault = .panic := by
  unfold mulUsize
  split_ifs with h
  · simp [h]
  · simp [not_lt.mp h, eq_comm]

/-- `MemAttributes` of `def.rs`. -/
inductive MemAttributes where
  | normal
  | perCpu
  | device
  | uncached
  deriving DecidableEq, Repr, Inhabited

/-- `PteConfig` of `def.rs`, with its `Default`. -/
structure PteConfig where
  paddr : Nat := 0
  valid : Bool := false
  read : Bool := false
  writable : Bool := false
  executable : Bool := false
  lower : Bool := false
  dirty : Bool := false
  global : Bool := false
  isDir : Bool := false
  huge : Bool := false
  memAttr : MemAttributes := .normal
  deriving DecidableEq, Repr, Inhabited

/-- The configuration every clearing of an entry encodes: `PteConfig { valid: false, .. }`. -/
def invalidConfig : PteConfig := {}

/-- The trait `PageTableEntry`; `zeroed` is the entry whose bytes are all zero, which is what a
freshly cleared frame holds. -/
class PageTableEntry (P : Type) where
  fromConfig : PteConfig → P
  toConfig : P → Bool → PteConfig
  valid : P → Bool
  zeroed : P

export PageTableEntry (fromConfig toConfig zeroed)

/-! ### Table layouts -/

/-- The address layout of a table: `PAGE_SIZE = 2 ^ pageShift` and the index bits of its levels,
highest level first. -/
structure Layout where
  pageShift : Nat
  levelBits : List Nat
  deriving DecidableEq, Repr

namespace Layout

def pageSize (g : Layout) : Nat := 2 ^ g.pageShift

def ptLevel (g : Layout) : Nat := g.levelBits.length

def ptValidBits (g : Layout) : Nat := g.levelBits.sum + g.pageShift

/-- The index bits below the levels from `level` on: `LEVEL_BITS.iter().skip(n - level + 1).sum()`. -/
def bitsBelow (g : Layout) (level : Nat) : Nat := (g.levelBits.drop (g.ptLevel - level + 1)).sum

/-- `Frame::level_size`. -/
def levelSize (g : Layout) (level : Nat) : Nat :=
  if level = 1 then g.pageSize else (g.pageSize <<< g.bitsBelow level) % usizeRange

/-- The bits `virt_to_index` skips: the page offset and the index bits of the lower levels. -/
def indexShift (g : Layout) (level : Nat) : Nat :=
  if level = 1 then g.pageShift else g.pageShift + g.bitsBelow level

/-- The index bits of one level: `LEVEL_BITS[n - level]`. -/
def levelIndexBits (g : Layout) (level : Nat) : Nat := g.levelBits.getD (g.ptLevel - level) 0

/-- `Frame::virt_to_index`. -/
def virtToIndex (g : Layout) (vaddr : Nat) (level : Nat) : Except Fault Nat :=
  if level = 0 ∨ g.ptLevel < level then .error .panic
  -- shifting a `usize` by 64 or more is an overflow
  else if 64 ≤ g.indexShift level ∨ 64 ≤ g.levelIndexBits level then .error .panic
  else .ok ((vaddr >>> g.indexShift level) &&& ((1 <<< g.levelIndexBits level) - 1))

/-- `Frame::reconstruct_vaddr`. -/
def reconstructVaddr (g : Layout) (index level : Nat) (baseVaddr : Nat) :
    Except Fault Nat := do
  let offset ← mulUsize index (g.levelSize level)
  addUsize baseVaddr offset

end Layout

/-- The trait `TableMeta`: a layout of at least one level, the highest level that may hold huge pages
and the size of an entry, such that a table of `PAGE_SIZE` bytes has `2 ^ LEVEL_BITS` entries at every
level. -/
structure TableMeta (P : Type) extends Layout where
  maxBlockLevel : Nat
  entrySize : Nat
  levels_pos : 0 < levelBits.length
  table_len : ∀ bits ∈ levelBits, 2 ^ pageShift / entrySize = 2 ^ bits

theorem fourLevels_pos : 0 < [9, 9, 9, 9].length := by decide

theorem fourLevels_len : ∀ bits ∈ [9, 9, 9, 9], 2 ^ 12 / 8 = 2 ^ bits := by decide

namespace TableMeta

variable {P : Type} (T : TableMeta P)

/-- `Frame::LEN`. -/
def len : Nat := T.pageSize / T.entrySize

def indexBits : Nat := Nat.log 2 T.len

/-- The bytes an entry of level `level` covers, `2 ^ (page shift + index bits of the levels below)`. -/
def size (level : Nat) : Nat := 2 ^ (T.pageShift + (level - 1) * T.indexBits)

/-- The entry of a level-`level` table that covers `vaddr`. -/
def slot (level : Nat) (vaddr : Nat) : Nat := vaddr / T.size level % T.len

/-- The levels whose index computation does not overflow. -/
def Addressable (level : Nat) : Prop :=
  0 < level ∧ level ≤ T.ptLevel ∧ T.pageShift + (level - 1) * T.indexBits < 64 ∧ T.indexBits < 64

theorem size_pos (level : Nat) : 0 < T.size level := Nat.two_pow_pos _

theorem size_one : T.size 1 = T.pageSize := by
  simp [size, Layout.pageSize]

theorem pageSize_pos : 0 < T.pageSize := Nat.two_pow_pos _

theorem pageSize_dvd_size (level : Nat) : T.pageSize ∣ T.size level :=
  pow_dvd_pow 2 (Nat.le_add_right _ _)

variable {level level' : Nat}

theorem size_dvd_size (h : level ≤ level') : T.size level ∣ T.size level' :=
  pow_dvd_pow 2 (Nat.add_le_add_left (Nat.mul_le_mul_right _ (by omega)) _)

theorem size_le_size (h : level ≤ level') : T.size level ≤ T.size level' :=
  Nat.le_of_dvd (T.size_pos level') (T.size_dvd_size h)

theorem mem_levelBits {bits : Nat} (h : bits ∈ T.levelBits) : bits = T.indexBits := by
  have hlen : T.len = 2 ^ bits := T.table_len bits h
  rw [indexBits, hlen, Nat.log_pow (by norm_num)]

theorem levelBits_eq : T.levelBits = List.replicate T.ptLevel T.indexBits :=
  List.eq_replicate_iff.mpr ⟨rfl, fun _ h => T.mem_levelBits h⟩

theorem ptLevel_pos : 0 < T.ptLevel := T.levels_pos

theorem len_eq : T.len = 2 ^ T.indexBits := by
  obtain ⟨bits, hbits⟩ := List.exists_mem_of_length_pos T.ptLevel_pos
  rw [← T.mem_levelBits hbits]
  exact T.table_len bits hbits

theorem len_pos : 0 < T.len := by
  rw [T.len_eq]
  exact Nat.two_pow_pos _

variable {level : Nat}

theorem size_succ (h : 0 < level) : T.size (level + 1) = T.size level * T.len := by
  rw [T.len_eq, size, size, ← pow_add]
  congr 1
  obtain ⟨level, rfl⟩ := Nat.exists_eq_add_one.mpr (by omega)
  simp only [Nat.add_sub_cancel]
  ring

theorem bitsBelow_eq (h : 0 < level) (hle : level ≤ T.ptLevel) : T.bitsBelow level = (level - 1) * T.indexBits := by
  rw [Layout.bitsBelow, T.levelBits_eq, List.drop_replicate, List.sum_replicate, smul_eq_mul]
  congr 1
  omega

theorem ptValidBits_eq : T.ptValidBits = T.pageShift + T.ptLevel * T.indexBits := by
  rw [Layout.ptValidBits, T.levelBits_eq, List.sum_replicate, smul_eq_mul, Nat.add_comm]

theorem size_of_pageSize_one (h : T.pageSize = 1) (level : Nat) : T.size level = 1 := by
  have hlen : T.len ≤ 1 := by
    rw [len, h]
    exact Nat.div_le_self _ _
  have hbits : T.indexBits = 0 := Nat.log_of_lt (by omega)
  have hshift : T.pageShift = 0 := by
    rwa [Layout.pageSize, Nat.pow_eq_one, or_iff_right (by norm_num)] at h
  rw [size, hbits, hshift, Nat.mul_zero, pow_zero]

theorem size_ptLevel_succ : T.size (T.ptLevel + 1) = 2 ^ T.ptValidBits := by
  rw [size, T.ptValidBits_eq, Nat.add_sub_cancel]

theorem Addressable.mono {T : TableMeta P} (h : T.Addressable level') (hpos : 0 < level) (hle : level ≤ level') :
    T.Addressable level := by
  obtain ⟨_, hn, hshift, hbits⟩ := h
  have : (level - 1) * T.indexBits ≤ (level' - 1) * T.indexBits :=
    Nat.mul_le_mul_right _ (by omega)
  exact ⟨hpos, by omega, by omega, hbits⟩

theorem levelSize_eq (h : T.Addressable level) : T.levelSize level = T.size level := by
  obtain ⟨hpos, hn, hshift, _⟩ := h
  unfold Layout.levelSize
  split_ifs with hone
  · rw [hone, T.size_one]
  · have hlt : T.size level < usizeRange := Nat.pow_lt_pow_right (by norm_num) hshift
    have hval : T.pageSize <<< T.bitsBelow level = T.size level := by
      rw [Nat.shiftLeft_eq, T.bitsBelow_eq hpos hn, Layout.pageSize, ← pow_add, size]
    rw [hval, Nat.mod_eq_of_lt hlt]

theorem indexShift_eq (h : 0 < level) (hle : level ≤ T.ptLevel) :
    T.indexShift level = T.pageShift + (level - 1) * T.indexBits := by
  unfold Layout.indexShift
  split_ifs with hone
  · simp [hone]
  · rw [T.bitsBelow_eq h hle]

theorem levelIndexBits_eq (h : 0 < level) (hle : level ≤ T.ptLevel) : T.levelIndexBits level = T.indexBits := by
  have hlt : T.ptLevel - level < T.levelBits.length := by
    show T.ptLevel - level < T.ptLevel
    omega
  rw [Layout.levelIndexBits, List.getD_eq_getElem _ _ hlt]
  exact T.mem_levelBits (List.getElem_mem _)

/-- Where the index computation returns it extracts the slot; elsewhere it panics. -/
theorem virtToIndex_eq (vaddr level : Nat) :
    (T.Addressable level ∧ T.virtToIndex vaddr level = .ok (T.slot level vaddr)) ∨
      (¬ T.Addressable level ∧ T.virtToIndex vaddr level = .error .panic) := by
  unfold Layout.virtToIndex
  by_cases hlevel : level = 0 ∨ T.ptLevel < level
  · right
    rw [if_pos hlevel]
    refine ⟨fun h => ?_, rfl⟩
    obtain ⟨hpos, hn, _⟩ := h
    omega
  · have hpos : 0 < level := by omega
    have hle : level ≤ T.ptLevel := by omega
    rw [if_neg hlevel, T.indexShift_eq hpos hle, T.levelIndexBits_eq hpos hle]
    by_cases hover : 64 ≤ T.pageShift + (level - 1) * T.indexBits ∨ 64 ≤ T.indexBits
    · right
      rw [if_pos hover]
      refine ⟨fun h => ?_, rfl⟩
      obtain ⟨_, _, hshift, hbits⟩ := h
      omega
    · left
      rw [if_neg hover]
      refine ⟨⟨hpos, hle, by omega, by omega⟩, ?_⟩
      rw [Nat.one_shiftLeft, Nat.and_two_pow_sub_one_eq_mod, Nat.shiftRight_eq_div_pow, slot,
        T.len_eq, size]

theorem virtToIndex_eq_ok {vaddr level index : Nat} :
    T.virtToIndex vaddr level = .ok index ↔ T.Addressable level ∧ index = T.slot level vaddr := by
  rcases T.virtToIndex_eq vaddr level with ⟨h, he⟩ | ⟨h, he⟩
  · simp [he, h, eq_comm]
  · simp [he, h]

theorem virtToIndex_eq_error {vaddr level : Nat} {fault : Fault} :
    T.virtToIndex vaddr level = .error fault ↔ ¬ T.Addressable level ∧ fault = .panic := by
  rcases T.virtToIndex_eq vaddr level with ⟨h, he⟩ | ⟨h, he⟩
  · simp [he, h]
  · simp [he, h, eq_comm]

theorem slot_lt (level vaddr : Nat) : T.slot level vaddr < T.len := Nat.mod_lt _ T.len_pos

end TableMeta

/-! ### Frames -/

/-- The trait `FrameAllocator`: the answer to a request may depend on all calls made so far. -/
structure FrameAllocator where
  allocFrame : Ledger PhysAddr → Option PhysAddr

/-- Every frame handed out is page-aligned, below `limit` and not in use. -/
def FrameAllocator.Fresh {P : Type} (A : FrameAllocator) (T : TableMeta P) (limit : Nat) : Prop :=
  ∀ log frame, A.allocFrame log = some frame →
    ¬ Ledger.Live log frame ∧ T.pageSize ∣ frame ∧ frame < limit

/-- An allocator that hands out the 4 KiB frames from `0x100000` on, one for each call. -/
def FrameAllocator.bump : FrameAllocator where
  allocFrame log :=
    if Ledger.Live log (0x100000 + 0x1000 * log.length) ∨ 2 ^ 52 ≤ 0x100000 + 0x1000 * log.length then
      none
    else some (0x100000 + 0x1000 * log.length)

theorem FrameAllocator.bump_fresh {P : Type} {T : TableMeta P} (hpage : T.pageSize = 0x1000) :
    FrameAllocator.bump.Fresh T (2 ^ 52) := by
  intro log frame h
  simp only [bump] at h
  split_ifs at h with hlive
  obtain rfl := Option.some.inj h
  rw [not_or, not_le] at hlive
  refine ⟨hlive.1, ?_, hlive.2⟩
  rw [hpage]
  omega

/-- What a page table lives in: the entries of every physical frame, the calls made to the frame
allocator and the TLB flushes issued, both newest first. -/
structure Machine (P : Type) where
  mem : PhysAddr → Nat → P
  log : Ledger PhysAddr
  flushed : List Nat

end Sparreal.Paging
