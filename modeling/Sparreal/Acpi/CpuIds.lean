import Sparreal.Acpi.Madt

/-!
# The ids of the processors

`cpu_id_list` lists the ids of the enabled processors of the MADT; `cpu_idx` of `someboot/src/smp` looks the running
processor up in it by the id that the hardware reports. An entry of a GIC has that id in its MPIDR field and an entry
of a RISC-V hart in 64 bits, but the list has the interface number of the one and the lower half of the other, so it is
the list of the hardware ids only where these agree (`cpuIdList_iff`).
-/

namespace Sparreal.Acpi

open Records

def nonEmptyCpuInfoIter : List CpuInfo → Option (List CpuInfo)
  | [] => none
  | first :: rest => some (first :: rest)

def nonEmptyEnabledCpuIdIter (cpuInfo : List CpuInfo) : Option (List Nat) :=
  match (cpuInfo.filter (·.enabled)).map (·.physicalId) with
  | [] => none
  | first :: rest => some (first :: rest)

namespace Arch

/-- `cpu_info`, for a table that was found. -/
def cpuInfo (arch : Arch) (madt : List UInt8) : Except Fault (Option (List CpuInfo)) :=
  (arch.iterate madt).map nonEmptyCpuInfoIter

/-- `cpu_id_list`, for a table that was found. -/
def cpuIdList (arch : Arch) (madt : List UInt8) : Except Fault (Option (List Nat)) :=
  (arch.cpuInfo madt).map fun infos => infos.bind nonEmptyEnabledCpuIdIter

end Arch

/-- `cpu_idx`: the place of the running processor in the list; `none` is the panic. -/
def cpuIdx (ids : List Nat) (hartId : Nat) : Option Nat := ids.findIdx? (· = hartId)

/-! ### The entries of processors -/

namespace Arch

def isProcessor : Arch → List UInt8 → Bool
  | x86_64, r => r.head? = some 0 || r.head? = some 9
  | aarch64, r => r.head? = some 11
  | riscv64, r => r.head? = some 0x18
  | loongarch64, r => r.head? = some 0x11

def entryLength : Arch → List UInt8 → Nat
  | x86_64, r => if r.head? = some 0 then 8 else 16
  | aarch64, _ => 76
  | riscv64, _ => 36
  | loongarch64, _ => 15

def isEnabledEntry : Arch → List UInt8 → Bool
  | x86_64, r => isEnabled (if r.head? = some 0 then Bytes.field r 4 4 else Bytes.field r 8 4)
  | aarch64, r => isEnabled (Bytes.field r 12 4)
  | riscv64, r => isEnabled (Bytes.field r 4 4)
  | loongarch64, r => isEnabled (Bytes.field r 11 4)

def hardwareId : Arch → List UInt8 → Nat
  | x86_64, r => if r.head? = some 0 then Bytes.field r 3 1 else Bytes.field r 4 4
  | aarch64, r => Bytes.field r 68 8
  | riscv64, r => Bytes.field r 8 8
  | loongarch64, r => Bytes.field r 7 4

def hardwareIds (arch : Arch) (rs : List (List UInt8)) : List Nat :=
  (rs.filter fun r => arch.isProcessor r && arch.isEnabledEntry r).map arch.hardwareId

def SameId : Arch → List UInt8 → Prop
  | x86_64, _ => True
  | aarch64, r => Bytes.field r 4 4 = Bytes.field r 68 8
  | riscv64, r => Bytes.field r 8 8 < 2 ^ 32
  | loongarch64, _ => True

instance : (arch : Arch) → (r : List UInt8) → Decidable (arch.SameId r)
  | x86_64, _ | loongarch64, _ => inferInstanceAs (Decidable True)
  | aarch64, r => inferInstanceAs (Decidable (Bytes.field r 4 4 = Bytes.field r 68 8))
  | riscv64, r => inferInstanceAs (Decidable (Bytes.field r 8 8 < 2 ^ 32))

end Arch

/-- The table is a header and the records, and the entries of processors have the length they should. -/
structure WellFormed (arch : Arch) (madt : List UInt8) (rs : List (List UInt8)) : Prop where
  table : ∃ header : List UInt8, header.length = madtHeaderSize ∧ madt = header ++ rs.flatten
  records : ∀ r ∈ rs, IsRecord r
  complete : ∀ r ∈ rs, arch.isProcessor r = true → arch.entryLength r ≤ r.length

/-- `cpu_id_list` yields the hardware ids of the enabled processors, in the order of the table. -/
def ListsHardwareIds (arch : Arch) (madt : List UInt8) (rs : List (List UInt8)) : Prop :=
  ∃ ids, arch.cpuIdList madt = .ok ids ∧ ids.getD [] = arch.hardwareIds rs

/-! ### The list -/

section List

variable {arch : Arch} {r : List UInt8}

def Arch.listedId : Arch → List UInt8 → Nat
  | x86_64, r => hardwareId x86_64 r
  | aarch64, r => Bytes.field r 4 4
  | riscv64, r => Bytes.field r 8 8 % 2 ^ 32
  | loongarch64, r => hardwareId loongarch64 r

theorem listedId_eq_iff : arch.listedId r = arch.hardwareId r ↔ arch.SameId r := by
  cases arch with
  | x86_64 | loongarch64 => exact iff_of_true rfl trivial
  | aarch64 => exact Iff.rfl
  | riscv64 => exact Nat.mod_eq_iff_lt (by decide)

theorem decode_of_matches {f : EntryFormat} (htype : r.head? = some f.entryType) (hsize : f.size ≤ r.length)
    (formats : List EntryFormat) : decode (f :: formats) r = some (f.info (r.take f.size)) := by
  have hmatches : f.matches r = true := by simp [EntryFormat.matches, htype, hsize]
  simp [decode, hmatches]

theorem decode_of_other {f : EntryFormat} (htype : r.head? ≠ some f.entryType) (formats : List EntryFormat) :
    decode (f :: formats) r = decode formats r := by
  have hmatches : f.matches r = false := by simp [EntryFormat.matches, htype]
  simp [decode, hmatches]

theorem decode_of_isProcessor (hcpu : arch.isProcessor r = true) (hlength : arch.entryLength r ≤ r.length) :
    ∃ processorId, decode arch.formats r = some ⟨arch.listedId r, processorId, arch.isEnabledEntry r⟩ := by
  have htake := fun (offset width n : Nat) (h : offset + width ≤ n) => Bytes.field_take (l := r) h
  cases arch with
  | x86_64 =>
    simp only [Arch.isProcessor, Bool.or_eq_true, decide_eq_true_eq] at hcpu
    rcases hcpu with hcpu | hcpu
    · simp only [Arch.entryLength, hcpu, if_true] at hlength
      refine ⟨Bytes.field r 2 1, ?_⟩
      rw [Arch.formats, decode_of_matches hcpu hlength]
      simp [localApicEntry, Arch.listedId, Arch.hardwareId, Arch.isEnabledEntry, hcpu, htake]
    · have hother : r.head? ≠ some 0 := by simp [hcpu]
      simp only [Arch.entryLength, hother, if_false] at hlength
      refine ⟨Bytes.field r 12 4, ?_⟩
      rw [Arch.formats, decode_of_other hother, decode_of_matches hcpu hlength]
      simp [localX2ApicEntry, Arch.listedId, Arch.hardwareId, Arch.isEnabledEntry, hcpu, htake]
  | aarch64 =>
    have hhead : r.head? = some giccHead.entryType := of_decide_eq_true hcpu
    refine ⟨Bytes.field r 8 4, ?_⟩
    rw [Arch.formats, decode_of_matches hhead (le_trans (show 16 ≤ 76 by decide) hlength)]
    simp [giccHead, Arch.listedId, Arch.isEnabledEntry, htake]
  | riscv64 =>
    have hhead : r.head? = some rintcEntry.entryType := of_decide_eq_true hcpu
    refine ⟨Bytes.field r 16 4, ?_⟩
    rw [Arch.formats, decode_of_matches hhead hlength]
    simp [rintcEntry, Arch.listedId, Arch.isEnabledEntry, htake]
  | loongarch64 =>
    have hhead : r.head? = some corePicEntry.entryType := of_decide_eq_true hcpu
    refine ⟨Bytes.field r 3 4, ?_⟩
    rw [Arch.formats, decode_of_matches hhead hlength]
    simp [corePicEntry, Arch.listedId, Arch.hardwareId, Arch.isEnabledEntry, htake]

theorem decode_of_not_isProcessor (hcpu : arch.isProcessor r = false) : decode arch.formats r = none := by
  cases arch with
  | x86_64 =>
    simp only [Arch.isProcessor, Bool.or_eq_false_iff, decide_eq_false_iff_not] at hcpu
    rw [Arch.formats, decode_of_other hcpu.1, decode_of_other hcpu.2]
    rfl
  | aarch64 | riscv64 | loongarch64 =>
    simp only [Arch.isProcessor, decide_eq_false_iff_not] at hcpu
    rw [Arch.formats, decode_of_other hcpu]
    rfl

theorem enabledIds_eq (rs : List (List UInt8))
    (hcomplete : ∀ r ∈ rs, arch.isProcessor r = true → arch.entryLength r ≤ r.length) :
    ((rs.filterMap (decode arch.formats)).filter (·.enabled)).map (·.physicalId) =
      (rs.filter fun r => arch.isProcessor r && arch.isEnabledEntry r).map arch.listedId := by
  induction rs with
  | nil => rfl
  | cons r rs ih =>
    obtain ⟨hr, hrs⟩ := List.forall_mem_cons.mp hcomplete
    cases hcpu : arch.isProcessor r with
    | false => simp [decode_of_not_isProcessor hcpu, hcpu, ih hrs]
    | true =>
      obtain ⟨processorId, hdecode⟩ := decode_of_isProcessor hcpu (hr hcpu)
      cases hen : arch.isEnabledEntry r <;> simp [hdecode, hcpu, hen, ih hrs]

theorem cpuIdList_eq {madt : List UInt8} {rs : List (List UInt8)} (h : WellFormed arch madt rs) :
    ∃ ids, arch.cpuIdList madt = .ok ids ∧
      ids.getD [] = (rs.filter fun r => arch.isProcessor r && arch.isEnabledEntry r).map arch.listedId := by
  obtain ⟨header, hheader, rfl⟩ := h.table
  have hsplit : split ((header ++ rs.flatten).drop madtHeaderSize) = rs := by
    rw [← hheader, List.drop_left]
    exact (split_longest _).unique (longest_flatten h.records)
  refine ⟨_, by rw [Arch.cpuIdList, Arch.cpuInfo, Arch.iterate_eq, hsplit]; rfl, ?_⟩
  rw [← enabledIds_eq rs h.complete]
  -- a list without elements is not there, and stands for itself
  cases hinfos : rs.filterMap (decode arch.formats) with
  | nil => rfl
  | cons info infos =>
    simp only [nonEmptyCpuInfoIter, Option.bind_some, nonEmptyEnabledCpuIdIter]
    split
    · next hids => rw [hids]; rfl
    · next hids => rw [hids]; rfl

end List

/-- For a well-formed table the list is that of the hardware ids exactly if on AArch64 the interface number of every
enabled processor is its MPIDR, and on RISC-V its hart id fits into 32 bits. -/
theorem cpuIdList_iff (arch : Arch) (madt : List UInt8) (rs : List (List UInt8)) (h : WellFormed arch madt rs) :
    ListsHardwareIds arch madt rs ↔
      ∀ r ∈ rs, arch.isProcessor r = true → arch.isEnabledEntry r = true → arch.SameId r := by
  obtain ⟨ids, hlist, hids⟩ := cpuIdList_eq h
  have hlists : ListsHardwareIds arch madt rs ↔ ids.getD [] = arch.hardwareIds rs := by
    refine ⟨?_, fun heq => ⟨ids, hlist, heq⟩⟩
    rintro ⟨ids', hlist', heq⟩
    rwa [Except.ok.inj (hlist.symm.trans hlist')]
  rw [hlists, hids, Arch.hardwareIds, List.map_inj_left]
  simp only [List.mem_filter, Bool.and_eq_true, and_imp, listedId_eq_iff]

/-- A record of type `type` that ends with `fields`. -/
def entry (type : UInt8) (fields : List UInt8) : List UInt8 := type :: (fields.length + 2).toUInt8 :: fields

/-- The entry of a processor behind a GIC, by the lower bytes of its interface number and flags. -/
def giccEntry (interface flags : UInt8) (mpidr : List UInt8) : List UInt8 :=
  entry 11 ([0, 0, interface, 0, 0, 0, 0, 0, 0, 0, flags, 0, 0, 0] ++ List.replicate 52 0 ++ mpidr)

def hartEntry (flags : UInt8) (hartId : List UInt8) : List UInt8 :=
  entry 0x18 ([1, 0, flags, 0, 0, 0] ++ hartId ++ List.replicate 20 0)

def table (rs : List (List UInt8)) : List UInt8 := List.replicate madtHeaderSize 0 ++ rs.flatten

theorem table_wellFormed {arch : Arch} {rs : List (List UInt8)} (hrecords : ∀ r ∈ rs, IsRecord r)
    (hcomplete : ∀ r ∈ rs, arch.isProcessor r = true → arch.entryLength r ≤ r.length) :
    WellFormed arch (table rs) rs :=
  ⟨⟨_, List.length_replicate, rfl⟩, hrecords, hcomplete⟩

def giccEntries : List (List UInt8) :=
  [giccEntry 1 1 [1, 0, 0, 0, 0, 0, 0, 0], giccEntry 2 0 [0, 1, 0, 0, 0, 0, 0, 0], giccEntry 3 1 [3, 0, 0, 0, 0, 0, 0, 0]]

def hartEntries : List (List UInt8) :=
  [hartEntry 1 [7, 0, 0, 0, 0, 0, 0, 0], hartEntry 0 [7, 0, 0, 0, 1, 0, 0, 0], hartEntry 1 [8, 1, 0, 0, 0, 0, 0, 0]]

/-- Processors whose MPIDRs are their interface numbers, and harts whose ids have 32 bits, but for a disabled one. -/
theorem cpuIdList_iff_enabled :
    (ListsHardwareIds .aarch64 (table giccEntries) giccEntries ∧ Arch.aarch64.hardwareIds giccEntries = [1, 3]) ∧
      ListsHardwareIds .riscv64 (table hartEntries) hartEntries ∧ Arch.riscv64.hardwareIds hartEntries = [7, 0x108] :=
  ⟨⟨(cpuIdList_iff .aarch64 _ _ (table_wellFormed (by decide) (by decide))).mpr (by decide +kernel), by decide +kernel⟩,
    (cpuIdList_iff .riscv64 _ _ (table_wellFormed (by decide) (by decide))).mpr (by decide +kernel), by decide +kernel⟩

/-- The first processor of a second cluster is listed as processor 0 and not found by its MPIDR; a hart is listed by
the lower half of its id. -/
theorem cpuIdList_not_hardware :
    (WellFormed .aarch64 (table [giccEntry 0 1 [0, 1, 0, 0, 0, 0, 0, 0]]) [giccEntry 0 1 [0, 1, 0, 0, 0, 0, 0, 0]] ∧
      Arch.aarch64.cpuIdList (table [giccEntry 0 1 [0, 1, 0, 0, 0, 0, 0, 0]]) = .ok (some [0]) ∧
      Arch.aarch64.hardwareIds [giccEntry 0 1 [0, 1, 0, 0, 0, 0, 0, 0]] = [0x100] ∧ cpuIdx [0] 0x100 = none ∧
      ¬ ListsHardwareIds .aarch64 (table [giccEntry 0 1 [0, 1, 0, 0, 0, 0, 0, 0]])
        [giccEntry 0 1 [0, 1, 0, 0, 0, 0, 0, 0]]) ∧
    WellFormed .riscv64 (table [hartEntry 1 [7, 0, 0, 0, 1, 0, 0, 0]]) [hartEntry 1 [7, 0, 0, 0, 1, 0, 0, 0]] ∧
      Arch.riscv64.cpuIdList (table [hartEntry 1 [7, 0, 0, 0, 1, 0, 0, 0]]) = .ok (some [7]) ∧
      Arch.riscv64.hardwareIds [hartEntry 1 [7, 0, 0, 0, 1, 0, 0, 0]] = [0x100000007] ∧
      ¬ ListsHardwareIds .riscv64 (table [hartEntry 1 [7, 0, 0, 0, 1, 0, 0, 0]])
        [hartEntry 1 [7, 0, 0, 0, 1, 0, 0, 0]] := by
  have harm : Arch.aarch64.cpuIdList (table [giccEntry 0 1 [0, 1, 0, 0, 0, 0, 0, 0]]) = .ok (some [0]) := by
    decide +kernel
  have hriscv : Arch.riscv64.cpuIdList (table [hartEntry 1 [7, 0, 0, 0, 1, 0, 0, 0]]) = .ok (some [7]) := by
    decide +kernel
  have harmIds : Arch.aarch64.hardwareIds [giccEntry 0 1 [0, 1, 0, 0, 0, 0, 0, 0]] = [0x100] := by decide +kernel
  have hriscvIds : Arch.riscv64.hardwareIds [hartEntry 1 [7, 0, 0, 0, 1, 0, 0, 0]] = [0x100000007] := by decide +kernel
  refine ⟨⟨table_wellFormed (by decide) (by decide), harm, harmIds, by decide, ?_⟩,
    table_wellFormed (by decide) (by decide), hriscv, hriscvIds, ?_⟩
  · rintro ⟨ids, hids, heq⟩
    rw [← Except.ok.inj (harm.symm.trans hids), harmIds] at heq
    exact absurd heq (by decide)
  · rintro ⟨ids, hids, heq⟩
    rw [← Except.ok.inj (hriscv.symm.trans hids), hriscvIds] at heq
    exact absurd heq (by decide)

end Sparreal.Acpi
