import Sparreal.Paging.Tree

/-!
# What a page table asks of its entries

The generic code reads an entry only through `to_config` and `valid`, so what it does depends on how
much of a `PteConfig` survives being encoded. `KeepsDirectories` is the part the shape of the tree
rests on: a pointer to a table is read back as that pointer, and nothing else is read as one.
`RoundTrips` adds that address, validity and kind of every entry survive, and implies it. `KeepsKinds`
asks the same of every template, and the flags of a leaf besides.

The addresses an entry can hold end at `limit`; an entry with room for every address has
`limit = 2 ^ 64`.
-/

namespace Sparreal.Paging

variable {P : Type}

/-- A configuration `map` encodes in a table of level `level`: valid, marked as an entry above the
leaf level or not, huge at most there, and with an aligned address an entry can hold. -/
structure Encodable (T : TableMeta P) (limit level : Nat) (c : PteConfig) : Prop where
  valid : c.valid = true
  isDir : c.isDir = decide (1 < level)
  huge : c.huge = true → 1 < level ∧ level ≤ T.maxBlockLevel
  aligned : T.pageSize ∣ c.paddr
  below : c.paddr < limit

variable {level paddr : Nat}

section Encodable

variable {T : TableMeta P} {limit : Nat}

theorem Encodable.isDir_of_lt {level : Nat} {c : PteConfig} (hc : Encodable T limit level c)
    (hlevel : 1 < level) : c.isDir = true := by
  rw [hc.isDir]
  exact decide_eq_true hlevel

theorem encodable_final (template : PteConfig) (hlevel : level = 1 ∨ 1 < level ∧ level ≤ T.maxBlockLevel)
    (haligned : T.pageSize ∣ paddr) (hlt : paddr < limit) : Encodable T limit level (template.final level paddr) where
  valid := rfl
  isDir := rfl
  huge h := by
    have hone : 1 < level := of_decide_eq_true h
    omega
  aligned := haligned
  below := hlt

theorem encodable_directory (template : PteConfig) (hlevel : 1 < level) (haligned : T.pageSize ∣ paddr)
    (hlt : paddr < limit) : Encodable T limit level (template.directory paddr) where
  valid := rfl
  isDir := (decide_eq_true hlevel).symm
  huge h := by simp [PteConfig.directory] at h
  aligned := haligned
  below := hlt

end Encodable

variable [PageTableEntry P]

/-- Pointers to tables survive the encoding, and no other entry looks like one. -/
structure KeepsDirectories (T : TableMeta P) (limit : Nat) : Prop where
  zeroed : isDirectory (zeroed : P) = false
  invalid : isDirectory (fromConfig invalidConfig : P) = false
  huge : ∀ level c, Encodable T limit level c → c.huge = true →
    isDirectory (fromConfig c : P) = false
  directory : ∀ level c, Encodable T limit level c → 1 < level → c.huge = false →
    isDirectory (fromConfig c : P) = true ∧ childPaddr (fromConfig c : P) = c.paddr ∧
      PageTableEntry.valid (fromConfig c : P) = true

/-- The scan for an empty table sees pointers to tables, although it reads every entry as a leaf. -/
def ScanSeesDirectories (T : TableMeta P) (limit : Nat) : Prop :=
  ∀ level c, Encodable T limit level c → 1 < level → c.huge = false →
    (toConfig (fromConfig c : P) false).valid = true

/-- Address, validity and kind of an entry survive the encoding. -/
structure RoundTrips (T : TableMeta P) (limit : Nat) : Prop where
  zeroed : ∀ isDir, (toConfig (zeroed : P) isDir).valid = false
  zeroed_valid : PageTableEntry.valid (PageTableEntry.zeroed : P) = false
  invalid : ∀ isDir, (toConfig (fromConfig invalidConfig : P) isDir).valid = false
  invalid_valid : PageTableEntry.valid (fromConfig invalidConfig : P) = false
  valid : ∀ level c, Encodable T limit level c → (toConfig (fromConfig c : P) c.isDir).valid = true
  huge : ∀ level c, Encodable T limit level c → (toConfig (fromConfig c : P) c.isDir).huge = c.huge
  paddr : ∀ level c, Encodable T limit level c → (toConfig (fromConfig c : P) c.isDir).paddr = c.paddr
  bit : ∀ level c, Encodable T limit level c → PageTableEntry.valid (fromConfig c : P) = true

/-- A valid configuration with an aligned address an entry can hold, whatever its flags. -/
structure Storable (T : TableMeta P) (limit : Nat) (c : PteConfig) : Prop where
  valid : c.valid = true
  aligned : T.pageSize ∣ c.paddr
  below : c.paddr < limit

/-- Base pages, huge pages and pointers to tables are told apart when they are read at their level, and a
page keeps its flags. -/
structure KeepsKinds (T : TableMeta P) (limit : Nat) : Prop where
  base : ∀ c, Storable T limit c → c.isDir = false →
    (toConfig (fromConfig c : P) false).paddr = c.paddr ∧ (toConfig (fromConfig c : P) false).valid = true ∧
      (toConfig (fromConfig c : P) false).huge = false
  table : ∀ c, Storable T limit c → c.isDir = true → c.huge = false →
    (toConfig (fromConfig c : P) true).paddr = c.paddr ∧ (toConfig (fromConfig c : P) true).valid = true ∧
      (toConfig (fromConfig c : P) true).huge = false
  leaf : ∀ c, Storable T limit c → c.isDir = false ∨ c.huge = true →
    (toConfig (fromConfig c : P) c.isDir).writable = c.writable ∧
      (toConfig (fromConfig c : P) c.isDir).executable = c.executable ∧
      (toConfig (fromConfig c : P) c.isDir).lower = c.lower ∧
      (toConfig (fromConfig c : P) c.isDir).global = c.global
  huge : ∀ c, Storable T limit c → c.isDir = true → c.huge = true →
    c.read = true ∨ c.writable = true ∨ c.executable = true → (toConfig (fromConfig c : P) true).huge = true

def ValidIndependent (P : Type) [PageTableEntry P] : Prop :=
  ∀ pte : P, (toConfig pte false).valid = (toConfig pte true).valid

variable {T : TableMeta P} {limit : Nat}

theorem ValidIndependent.eq (h : ValidIndependent P) (pte : P) (isDir : Bool) :
    (toConfig pte isDir).valid = (toConfig pte false).valid := by
  cases isDir with
  | false => rfl
  | true => exact (h pte).symm

theorem RoundTrips.keepsDirectories (h : RoundTrips (P := P) T limit) : KeepsDirectories T limit where
  zeroed := by simp [isDirectory, h.zeroed]
  invalid := by simp [isDirectory, h.invalid]
  huge level c hc hhuge := by
    have hdir := hc.isDir_of_lt (hc.huge hhuge).1
    have hval := h.huge level c hc
    rw [hdir, hhuge] at hval
    simp [isDirectory, hval]
  directory level c hc hlevel hhuge := by
    have hdir := hc.isDir_of_lt hlevel
    have hvalid := h.valid level c hc
    have hval := h.huge level c hc
    have hpaddr := h.paddr level c hc
    rw [hdir] at hvalid hval hpaddr
    exact ⟨by simp [isDirectory, hvalid, hval, hhuge], hpaddr, h.bit level c hc⟩

theorem RoundTrips.scanSeesDirectories (h : RoundTrips (P := P) T limit)
    (hind : ValidIndependent P) : ScanSeesDirectories (P := P) T limit := by
  intro level c hc hlevel _
  have hvalid := h.valid level c hc
  rw [hc.isDir_of_lt hlevel] at hvalid
  rw [hind, hvalid]

/-! ### The entries `map` writes -/

variable (h : KeepsDirectories (P := P) T limit)

include h

theorem KeepsDirectories.pointsToTable_final (template : PteConfig)
    (hlevel : level = 1 ∨ 1 < level ∧ level ≤ T.maxBlockLevel) (haligned : T.pageSize ∣ paddr) (hlt : paddr < limit) :
    pointsToTable level (fromConfig (template.final level paddr) : P) = false := by
  unfold pointsToTable
  by_cases hone : 1 < level
  · rw [h.huge level _ (encodable_final template hlevel haligned hlt) (decide_eq_true hone), Bool.and_false]
  · rw [decide_eq_false hone, Bool.false_and]

theorem KeepsDirectories.pointsToTable_directory (template : PteConfig) (hlevel : 1 < level)
    (haligned : T.pageSize ∣ paddr) (hlt : paddr < limit) :
    pointsToTable level (fromConfig (template.directory paddr) : P) = true ∧
      childPaddr (fromConfig (template.directory paddr) : P) = paddr := by
  obtain ⟨hdir, hpaddr, -⟩ :=
    h.directory level _ (encodable_directory template hlevel haligned hlt) hlevel rfl
  exact ⟨by rw [pointsToTable, decide_eq_true hlevel, hdir, Bool.and_true], hpaddr⟩

theorem KeepsDirectories.pointsToTable_invalid (level : Nat) :
    pointsToTable level (fromConfig invalidConfig : P) = false := by
  rw [pointsToTable, h.invalid, Bool.and_false]

end Sparreal.Paging
