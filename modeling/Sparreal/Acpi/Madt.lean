import Sparreal.Lib.Bytes
import Sparreal.Lib.Exec
import Sparreal.Lib.Records

/-!
# The processors of the MADT

The iterators of `someboot/src/acpi/cpu.rs`, one for each architecture, go through the records of the table and turn
those of a processor into a `CpuInfo`. They have one loop in common and differ in the records they know; a record is
read through a packed structure, which here is given by its type, its size and where its fields are.

The table is the buffer of `madt_len` bytes. Reading behind its end is a fault, and so is a loop that does not end.
-/

namespace Sparreal.Acpi

open Records

/-- What an iterator must not do. -/
inductive Fault where
  | outOfBounds
  | diverge
  deriving DecidableEq, Repr

/-- Code of an iterator; the state is its `offset`. -/
abbrev Scan (α : Type) : Type := Exec Fault Nat α

def madtHeaderSize : Nat := 44

def acpiMadtEnabled : Nat := 1

structure CpuInfo where
  physicalId : Nat
  processorId : Nat
  enabled : Bool
  deriving DecidableEq, Repr

/-- A structure that records are read through, and the `CpuInfo` made of it. -/
structure EntryFormat where
  entryType : UInt8
  size : Nat
  info : List UInt8 → CpuInfo

/-- `(flags & ACPI_MADT_ENABLED) != 0`. -/
def isEnabled (flags : Nat) : Bool := flags &&& acpiMadtEnabled != 0

def localApicEntry : EntryFormat where
  entryType := 0
  size := 8
  info := fun entry => ⟨Bytes.field entry 3 1, Bytes.field entry 2 1, isEnabled (Bytes.field entry 4 4)⟩

def localX2ApicEntry : EntryFormat where
  entryType := 9
  size := 16
  info := fun entry => ⟨Bytes.field entry 4 4, Bytes.field entry 12 4, isEnabled (Bytes.field entry 8 4)⟩

/-- `GiccHead`; the id is the `cpu_interface_number`. -/
def giccHead : EntryFormat where
  entryType := 11
  size := 16
  info := fun entry => ⟨Bytes.field entry 4 4, Bytes.field entry 8 4, isEnabled (Bytes.field entry 12 4)⟩

/-- `RintcEntry`; the id is `hart_id as u32`. -/
def rintcEntry : EntryFormat where
  entryType := 0x18
  size := 36
  info := fun entry => ⟨Bytes.field entry 8 8 % 2 ^ 32, Bytes.field entry 16 4, isEnabled (Bytes.field entry 4 4)⟩

def corePicEntry : EntryFormat where
  entryType := 0x11
  size := 15
  info := fun entry => ⟨Bytes.field entry 7 4, Bytes.field entry 3 4, isEnabled (Bytes.field entry 11 4)⟩

section Iterator

variable (madt : List UInt8)

/-- `*self.madt_ptr.add(i)`. -/
def readByte (i : Nat) : Scan UInt8 :=
  match madt[i]? with
  | some b => pure b
  | none => Exec.throw .outOfBounds

def readUnaligned (offset size : Nat) : Scan (List UInt8) :=
  if offset + size ≤ madt.length then pure ((madt.drop offset).take size) else Exec.throw .outOfBounds

/-- The chain of `if` over the structures. -/
def readEntry (offset : Nat) (entryType : UInt8) (entryLen : Nat) : List EntryFormat → Scan (Option CpuInfo)
  | [] => pure none
  | f :: formats =>
    if entryType = f.entryType ∧ entryLen ≥ f.size then do
      let entry ← readUnaligned madt offset f.size
      pure (some (f.info entry))
    else readEntry offset entryType entryLen formats

/-- One round of the loop of `next`; `none` goes on. -/
def scanRound (formats : List EntryFormat) : Scan (Option (Option CpuInfo)) := do
  let offset ← Exec.gets id
  if offset + 2 ≤ madt.length then
    let entryType ← readByte madt offset
    let entryLen := (← readByte madt (offset + 1)).toNat
    if entryLen < 2 ∨ offset + entryLen > madt.length then pure (some none)
    else
      let cpuInfo ← readEntry madt offset entryType entryLen formats
      Exec.modify (· + entryLen)
      pure (cpuInfo.map some)
  else pure (some none)

/-- `Iterator::next` of an iterator that knows these structures. -/
def cpuIterNext (formats : List EntryFormat) : Scan (Option CpuInfo) :=
  Exec.repeatUntil .diverge (scanRound madt formats) (madt.length + 1)

end Iterator

inductive Arch where
  | x86_64
  | aarch64
  | riscv64
  | loongarch64
  deriving DecidableEq, Repr

namespace Arch

/-- The structures an architecture knows, in the order they are tried. -/
def formats : Arch → List EntryFormat
  | x86_64 => [localApicEntry, localX2ApicEntry]
  | aarch64 => [giccHead]
  | riscv64 => [rintcEntry]
  | loongarch64 => [corePicEntry]

/-- `next` of `X86CpuIter`, `Aarch64CpuIter`, `Riscv64CpuIter` and `LoongArch64CpuIter`. -/
def next (arch : Arch) (madt : List UInt8) : Scan (Option CpuInfo) := cpuIterNext madt arch.formats

def iterate (arch : Arch) (madt : List UInt8) : Except Fault (List CpuInfo) :=
  (Exec.collect .diverge (arch.next madt) (madt.length + 1) madtHeaderSize).1

/-- A record of a processor of the architecture that is long enough. -/
def isCpu (arch : Arch) (r : List UInt8) : Bool :=
  match arch with
  | x86_64 => r.head? = some 0 && decide (8 ≤ r.length) || r.head? = some 9 && decide (16 ≤ r.length)
  | aarch64 => r.head? = some 11 && decide (16 ≤ r.length)
  | riscv64 => r.head? = some 0x18 && decide (36 ≤ r.length)
  | loongarch64 => r.head? = some 0x11 && decide (15 ≤ r.length)

end Arch

/-! ### Decoding a record -/

/-- The structure a record is read through. -/
def EntryFormat.matches (f : EntryFormat) (r : List UInt8) : Bool := r.head? = some f.entryType && decide (f.size ≤ r.length)

/-- What becomes of a record. -/
def decode (formats : List EntryFormat) (r : List UInt8) : Option CpuInfo :=
  (formats.find? (·.matches r)).map fun f => f.info (r.take f.size)

theorem decode_isSome {formats : List EntryFormat} {r : List UInt8} :
    (decode formats r).isSome = formats.any (·.matches r) := by
  rw [decode, Option.isSome_map, Bool.eq_iff_iff, List.find?_isSome, List.any_eq_true]

theorem Arch.decode_isSome (arch : Arch) (r : List UInt8) : (decode arch.formats r).isSome = arch.isCpu r := by
  rw [Acpi.decode_isSome]
  cases arch <;>
    simp [formats, isCpu, EntryFormat.matches, localApicEntry, localX2ApicEntry, giccHead, rintcEntry, corePicEntry]

/-! ### One round -/

section Round

variable {madt r : List UInt8} {offset : Nat}

theorem readEntry_eq (hr : r <+: madt.drop offset) {entryType : UInt8} (htype : r.head? = some entryType)
    (formats : List EntryFormat) :
    readEntry madt offset entryType r.length formats offset = (.ok (decode formats r), offset) := by
  induction formats with
  | nil => rfl
  | cons f formats ih =>
    have hmatches : f.matches r = true ↔ entryType = f.entryType ∧ r.length ≥ f.size := by
      simp [EntryFormat.matches, htype]
    rw [readEntry, decode, List.find?_cons]
    by_cases hf : f.matches r = true
    · obtain ⟨-, hsize⟩ := hmatches.mp hf
      have hroom : offset + f.size ≤ madt.length := by
        have hlength := hr.length_le
        have hpos : 0 < r.length := List.length_pos_of_mem (List.mem_of_mem_head? htype)
        rw [List.length_drop] at hlength
        omega
      have hbytes : (madt.drop offset).take f.size = r.take f.size := by
        obtain ⟨tail, htail⟩ := hr
        rw [← htail, List.take_append_of_le_length hsize]
      rw [if_pos (hmatches.mp hf), hf, readUnaligned, if_pos hroom, hbytes]
      rfl
    · rw [if_neg (hmatches.not.mp hf)]
      simp only [Bool.not_eq_true] at hf
      simp only [hf]
      exact ih

theorem scanRound_eq (madt : List UInt8) (formats : List EntryFormat) (offset : Nat) :
    scanRound madt formats offset =
      match first (madt.drop offset) with
      | none => (.ok (some none), offset)
      | some r => (.ok ((decode formats r).map some), offset + r.length) := by
  unfold scanRound
  rw [Exec.bind_apply_ok (Exec.gets_apply id offset)]
  simp only [id_eq]
  by_cases hroom : offset + 2 ≤ madt.length
  · obtain ⟨b, hb⟩ : ∃ b, madt[offset]? = some b := ⟨_, List.getElem?_eq_getElem (by omega)⟩
    obtain ⟨len, hlen⟩ : ∃ len, madt[offset + 1]? = some len := ⟨_, List.getElem?_eq_getElem (by omega)⟩
    have hone : (madt.drop offset)[1]? = some len := by rw [List.getElem?_drop, hlen]
    have hbyte : readByte madt offset offset = (.ok b, offset) := by simp only [readByte, hb, Exec.pure_apply]
    have hsecond : readByte madt (offset + 1) offset = (.ok len, offset) := by
      simp only [readByte, hlen, Exec.pure_apply]
    have hlength : (madt.drop offset).length = madt.length - offset := List.length_drop
    rw [if_pos hroom, Exec.bind_apply_ok hbyte, Exec.bind_apply_ok hsecond, first, hone]
    by_cases hbad : len.toNat < 2 ∨ offset + len.toNat > madt.length
    · have hnone : ¬ (2 ≤ len.toNat ∧ len.toNat ≤ (madt.drop offset).length) := by omega
      simp only [if_pos hbad, if_neg hnone, Exec.pure_apply]
    · have hgood : 2 ≤ len.toNat ∧ len.toNat ≤ (madt.drop offset).length := by omega
      have hr : (madt.drop offset).take len.toNat <+: madt.drop offset := List.take_prefix _ _
      have htake : ((madt.drop offset).take len.toNat).length = len.toNat := List.length_take_of_le hgood.2
      have hhead : ((madt.drop offset).take len.toNat).head? = some b := by
        rw [List.head?_take, if_neg (by omega), List.head?_drop, hb]
      have hentry := readEntry_eq hr hhead formats
      rw [htake] at hentry
      simp only [if_neg hbad, if_pos hgood]
      rw [Exec.bind_apply_ok hentry, htake]
      rfl
  · rw [if_neg hroom]
    have hnone : first (madt.drop offset) = none := by
      have hout : (madt.drop offset)[1]? = none := by
        rw [List.getElem?_eq_none_iff, List.length_drop]
        omega
      rw [first, hout]
    rw [hnone]
    rfl

end Round

/-! ### The whole iteration -/

section Iteration

variable (madt : List UInt8) (formats : List EntryFormat)

def remaining (offset : Nat) : List CpuInfo := (split (madt.drop offset)).filterMap (decode formats)

variable {madt formats}

theorem remaining_of_none {offset : Nat} (h : first (madt.drop offset) = none) : remaining madt formats offset = [] := by
  rw [remaining, split_of_none h, List.filterMap_nil]

theorem remaining_of_some {offset : Nat} {r : List UInt8} (h : first (madt.drop offset) = some r) :
    remaining madt formats offset = (decode formats r).toList ++ remaining madt formats (offset + r.length) := by
  rw [remaining, split_of_some h, List.filterMap_cons, List.drop_drop, remaining]
  cases decode formats r <;> rfl

theorem first_advances {offset : Nat} {r : List UInt8} (h : first (madt.drop offset) = some r) :
    madt.length - (offset + r.length) < madt.length - offset := by
  obtain ⟨hr, hprefix⟩ := first_eq_some.mp h
  have hlt := hr.drop_lt hprefix
  rwa [List.drop_drop, List.length_drop, List.length_drop] at hlt

variable (madt formats) in
/-- `next` has returned `b` and gone from one offset to another. -/
def Yields (offset : Nat) (b : Option CpuInfo) (offset' : Nat) : Prop :=
  match b with
  | none => remaining madt formats offset = []
  | some info => remaining madt formats offset = info :: remaining madt formats offset' ∧
      madt.length - offset' < madt.length - offset

/-- `next` yields the next of what is left. -/
theorem cpuIterNext_yields (offset : Nat) :
    ∃ b offset', cpuIterNext madt formats offset = (.ok b, offset') ∧ Yields madt formats offset b offset' := by
  -- as long as the loop goes on, what is left stays the same
  refine Exec.repeatUntil_returns
    (I := fun s => remaining madt formats s = remaining madt formats offset ∧
      madt.length - s ≤ madt.length - offset)
    (fun s => madt.length - s) ?_ (show madt.length - offset < madt.length + 1 by omega) ⟨rfl, le_rfl⟩
  rintro s ⟨hsame, hle⟩
  have hscan := scanRound_eq madt formats s
  cases hfirst : first (madt.drop s) with
  | none =>
    simp only [hfirst] at hscan
    exact .inl ⟨none, s, hscan, hsame.symm.trans (remaining_of_none hfirst)⟩
  | some r =>
    have hadvance := first_advances hfirst
    have hsplit := hsame.symm.trans (remaining_of_some hfirst)
    simp only [hfirst] at hscan
    cases hdecode : decode formats r with
    | none =>
      rw [hdecode] at hscan hsplit
      exact .inr ⟨_, hscan, ⟨hsplit.symm, by omega⟩, hadvance⟩
    | some info =>
      rw [hdecode] at hscan hsplit
      exact .inl ⟨some info, _, hscan, hsplit, by omega⟩

theorem Arch.iterate_eq (arch : Arch) (madt : List UInt8) :
    arch.iterate madt = .ok ((split (madt.drop madtHeaderSize)).filterMap (decode arch.formats)) := by
  have hcollect : ∃ offset', Exec.collect .diverge (arch.next madt) (madt.length + 1) madtHeaderSize =
      (.ok (remaining madt arch.formats madtHeaderSize), offset') := by
    refine Exec.collect_eq (I := fun _ => True) (remaining madt arch.formats) (fun s => madt.length - s) ?_
      (by omega) trivial
    intro s _
    obtain ⟨b, s', hrun, hyields⟩ : ∃ b s', arch.next madt s = (.ok b, s') ∧ Yields madt arch.formats s b s' :=
      cpuIterNext_yields s
    cases b with
    | none => exact .inl ⟨hyields, s', hrun⟩
    | some info => exact .inr ⟨info, s', hrun, trivial, hyields⟩
  obtain ⟨offset', hrun⟩ := hcollect
  rw [Arch.iterate, hrun, remaining]

end Iteration

/-- On any bytes the iterator of any architecture ends without reading behind the buffer, and yields one `CpuInfo` for
each record of a processor in the longest well-formed sequence of records behind the header, in order. -/
theorem iterate_records (arch : Arch) (madt : List UInt8) :
    ∃ rs infos, Longest (madt.drop madtHeaderSize) rs ∧ arch.iterate madt = .ok infos ∧
      List.Forall₂ (fun r info => decode arch.formats r = some info) (rs.filter arch.isCpu) infos := by
  refine ⟨_, _, split_longest _, arch.iterate_eq madt, ?_⟩
  induction split (madt.drop madtHeaderSize) with
  | nil => exact .nil
  | cons r rs ih =>
    have hsome := arch.decode_isSome r
    cases hdecode : decode arch.formats r with
    | none =>
      rw [hdecode] at hsome
      rw [List.filterMap_cons_none hdecode, List.filter_cons_of_neg (by simp [← hsome])]
      exact ih
    | some info =>
      rw [hdecode] at hsome
      rw [List.filterMap_cons_some hdecode, List.filter_cons_of_pos hsome.symm]
      exact .cons hdecode ih

end Sparreal.Acpi
