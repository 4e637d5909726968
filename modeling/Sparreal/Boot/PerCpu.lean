import Sparreal.Lib.Slots
import Sparreal.Boot.Ram

/-!
# The per-CPU area

`alloc_percpu` of `someboot/src/smp` reserves one region for the metadata, the stack and the data of all processors,
laid out in one of two ways. `prealloc.rs` has three rows of slots, one of each kind; `legacy.rs` has one row of areas
with a slot of each kind in them. Offsets and strides come from nested roundings. What they come to is said once for
each layout (`LayoutInfo.Laid`, `Area.Laid`), and the slots are placed from that.

A computation that overflows has no result.
-/

namespace Sparreal.Boot

open Paging

/-- What the layouts are computed from. -/
structure Platform where
  pageSize : Nat
  metaAlign : Nat
  percpuRegionAlign : Nat
  /-- The length of `percpu_link_range`. -/
  linkSize : Nat
  stackSize : Nat
  cpuCount : Nat
  page_isAlignment : Align.IsAlignment pageSize
  meta_isAlignment : Align.IsAlignment metaAlign
  region_isAlignment : Align.IsAlignment percpuRegionAlign
  page_le : pageSize ≤ percpuRegionAlign
  meta_le : metaAlign ≤ percpuRegionAlign

/-- The size of `PerCpuMeta`: seven `usize`. -/
def perCpuMetaSize : Nat := 7 * 8

/-- `meta_align`: `PerCpuMeta` is aligned as a `usize`. -/
def metaAlign : Nat := max 8 64

def percpuRegionAlign (pageSize : Nat) : Nat := max pageSize metaAlign

def usizeAdd (a b : Nat) : Option Nat := if a + b ≤ usizeMax then some (a + b) else none

def usizeMul (a b : Nat) : Option Nat := if a * b ≤ usizeMax then some (a * b) else none

/-- `align_up_pow2`; the alignments of a platform are powers of two. -/
def alignUpPow2 (value align : Nat) : Option Nat := Align.up value align

/-! ### One row for each kind (`prealloc.rs`) -/

namespace Prealloc

structure LayoutInfo where
  metaRegionOffset : Nat
  metaStride : Nat
  stackRegionOffset : Nat
  stackStride : Nat
  dataRegionOffset : Nat
  dataStride : Nat
  totalSize : Nat

def alignedSlotSize (size align : Nat) : Option Nat := alignUpPow2 (max size 1) align

def layoutInfo (p : Platform) (cpuNum : Nat) : Option LayoutInfo := do
  let metaStride ← alignedSlotSize perCpuMetaSize p.metaAlign
  let metaRegionSize ← usizeMul metaStride cpuNum
  let stackStride ← alignedSlotSize p.stackSize p.pageSize
  let stackRegionOffset ← alignUpPow2 metaRegionSize p.pageSize
  let stackRegionSize ← usizeMul stackStride cpuNum
  let dataStride ← alignedSlotSize p.linkSize p.percpuRegionAlign
  let stackRegionEnd ← usizeAdd stackRegionOffset stackRegionSize
  let dataRegionOffset ← alignUpPow2 stackRegionEnd p.percpuRegionAlign
  let dataRegionSize ← usizeMul dataStride cpuNum
  let dataRegionEnd ← usizeAdd dataRegionOffset dataRegionSize
  let totalSize ← alignUpPow2 dataRegionEnd p.percpuRegionAlign
  return ⟨0, metaStride, stackRegionOffset, stackStride, dataRegionOffset, dataStride, totalSize⟩

def slotStart (offset stride : LayoutInfo → Nat) (p : Platform) (percpuStart idx : Nat) : Option (Option Nat) :=
  if idx ≥ p.cpuCount then some none
  else do
    let layout ← layoutInfo p p.cpuCount
    let row ← usizeAdd percpuStart (offset layout)
    let distance ← usizeMul idx (stride layout)
    let start ← usizeAdd row distance
    return some start

/-- `cpu_meta_start`, which is `cpu_meta_addr`. -/
def cpuMetaStart : Platform → Nat → Nat → Option (Option Nat) := slotStart (·.metaRegionOffset) (·.metaStride)

def cpuStackStart : Platform → Nat → Nat → Option (Option Nat) := slotStart (·.stackRegionOffset) (·.stackStride)

def cpuDataStart : Platform → Nat → Nat → Option (Option Nat) := slotStart (·.dataRegionOffset) (·.dataStride)

/-- The size of the region that `alloc_percpu` asks for. -/
def totalSize (p : Platform) : Option Nat := (layoutInfo p p.cpuCount).map (·.totalSize)

end Prealloc

/-! ### One area for each processor (`legacy.rs`) -/

namespace Legacy

def metaOffset (p : Platform) : Option Nat := alignUpPow2 p.linkSize p.metaAlign

def stackOffset (p : Platform) : Option Nat := do
  let metaOffset ← metaOffset p
  alignUpPow2 (← usizeAdd metaOffset perCpuMetaSize) p.pageSize

def percpuDataSize (p : Platform) : Option Nat := do
  let stackOffset ← stackOffset p
  alignUpPow2 (← usizeAdd stackOffset p.stackSize) p.percpuRegionAlign

/-- The start of a slot of the area of a processor, as the loop of `alloc_percpu` and `percpu_data_ptr` compute it. -/
def slotStart (offset : Platform → Option Nat) (p : Platform) (percpuStart idx : Nat) : Option Nat := do
  let distance ← usizeMul idx (← percpuDataSize p)
  let cpuPercpuStart ← usizeAdd percpuStart distance
  usizeAdd cpuPercpuStart (← offset p)

def cpuMetaAddr (p : Platform) (percpu : Ranges.Range Nat) (idx : Nat) : Option (Option Nat) := do
  let distance ← usizeMul idx (← percpuDataSize p)
  let base ← usizeAdd percpu.start distance
  if base ≥ percpu.stop then return none
  else
    let metaStart ← usizeAdd base (← metaOffset p)
    return some metaStart

/-- The size of the region that `alloc_percpu` asks for. -/
def totalSize (p : Platform) : Option Nat := do usizeMul (← percpuDataSize p) p.cpuCount

end Legacy

/-! ### The region -/

/-- `alloc_percpu_region`; `none` also stands for memory that is not there or a layout that does not exist. -/
def allocPercpuRegion (p : Platform) (size : Nat) (s : Early) : Option (Nat × Early) := do
  let s ← s.flushToMemoryMap p.pageSize .reserved
  -- `Layout::from_size_align`
  if 2 ^ 63 - p.percpuRegionAlign < size then none
  else
    let (addr, ram) ← s.ram.alloc size p.percpuRegionAlign
    let start ← addr
    let s ← (s.answer size p.percpuRegionAlign (addr, ram)).flushToMemoryMap p.pageSize .perCpuData
    return (start, s)

/-- The two layouts, chosen by the feature `percpu-prealloc`. -/
inductive Scheme where
  | prealloc
  | legacy
  deriving DecidableEq, Repr

inductive SlotKind where
  | metadata
  | stack
  | data
  deriving DecidableEq, Repr

theorem metaAlign_isAlignment : Align.IsAlignment metaAlign := ⟨6, by decide, rfl⟩

theorem isAlignment_max {a b : Nat} (ha : Align.IsAlignment a) (hb : Align.IsAlignment b) :
    Align.IsAlignment (max a b) := by
  rcases Nat.le_total a b with h | h
  · rwa [Nat.max_eq_right h]
  · rwa [Nat.max_eq_left h]

namespace Platform

def slotSize (p : Platform) : SlotKind → Nat
  | .metadata => perCpuMetaSize
  | .stack => p.stackSize
  | .data => p.linkSize

def slotAlign (p : Platform) : SlotKind → Nat
  | .metadata => p.metaAlign
  | .stack => p.pageSize
  | .data => p.percpuRegionAlign

def someboot (pageSize linkSize stackSize cpuCount : Nat) (hpage : Align.IsAlignment pageSize) : Platform where
  pageSize := pageSize
  metaAlign := Boot.metaAlign
  percpuRegionAlign := Boot.percpuRegionAlign pageSize
  linkSize := linkSize
  stackSize := stackSize
  cpuCount := cpuCount
  page_isAlignment := hpage
  meta_isAlignment := metaAlign_isAlignment
  region_isAlignment := isAlignment_max hpage metaAlign_isAlignment
  page_le := Nat.le_max_left _ _
  meta_le := Nat.le_max_right _ _

end Platform

namespace Scheme

def totalSize : Scheme → Platform → Option Nat
  | prealloc => Prealloc.totalSize
  | legacy => Legacy.totalSize

/-- `alloc_percpu`, as far as the place of the region goes; the range is what `set_percpu_range` keeps. -/
def allocPercpu (scheme : Scheme) (p : Platform) (s : Early) : Option (Ranges.Range Nat × Early) := do
  let size ← scheme.totalSize p
  let (start, s) ← allocPercpuRegion p size s
  let stop ← usizeAdd start size
  return (⟨start, stop⟩, s)

/-- The start of the slot of a processor, as `alloc_percpu` computes it. -/
def slotStart (p : Platform) (percpu : Ranges.Range Nat) : Scheme → SlotKind → Nat → Option Nat
  | prealloc, .metadata, idx => (Prealloc.cpuMetaStart p percpu.start idx).bind id
  | prealloc, .stack, idx => (Prealloc.cpuStackStart p percpu.start idx).bind id
  | prealloc, .data, idx => (Prealloc.cpuDataStart p percpu.start idx).bind id
  | legacy, .metadata, idx => Legacy.slotStart Legacy.metaOffset p percpu.start idx
  | legacy, .stack, idx => Legacy.slotStart Legacy.stackOffset p percpu.start idx
  | legacy, .data, idx => Legacy.slotStart (fun _ => some 0) p percpu.start idx

def cpuMetaAddr (p : Platform) (percpu : Ranges.Range Nat) : Scheme → Nat → Option (Option Nat)
  | prealloc, idx => Prealloc.cpuMetaStart p percpu.start idx
  | legacy, idx => Legacy.cpuMetaAddr p percpu idx

end Scheme

/-- Every processor has its three slots, aligned and inside the region, and no two slots share an address;
`cpu_meta_addr` knows the metadata of the processors there are, wherever it has a result. -/
structure LaidOut (scheme : Scheme) (p : Platform) (percpu : Ranges.Range Nat) : Prop where
  placed : ∀ kind idx, idx < p.cpuCount → ∃ a, scheme.slotStart p percpu kind idx = some a ∧
    percpu.start ≤ a ∧ a + p.slotSize kind ≤ percpu.stop ∧ p.slotAlign kind ∣ a
  apart : ∀ kind idx a kind' idx' a', idx < p.cpuCount → idx' < p.cpuCount → (kind, idx) ≠ (kind', idx') →
    scheme.slotStart p percpu kind idx = some a → scheme.slotStart p percpu kind' idx' = some a' →
    Disjoint (Set.Ico a (a + p.slotSize kind)) (Set.Ico a' (a' + p.slotSize kind'))
  metaAddr : ∀ idx, idx < p.cpuCount →
    scheme.cpuMetaAddr p percpu idx = (scheme.slotStart p percpu .metadata idx).map some
  metaAddr_isSome : ∀ idx found, scheme.cpuMetaAddr p percpu idx = some found → (found.isSome ↔ idx < p.cpuCount)

/-! ### Alignment -/

theorem dvd_of_isAlignment {a b : Nat} (ha : Align.IsAlignment a) (hb : Align.IsAlignment b) (h : a ≤ b) : a ∣ b := by
  obtain ⟨k, -, rfl⟩ := ha
  obtain ⟨l, -, rfl⟩ := hb
  exact pow_dvd_pow 2 ((Nat.pow_le_pow_iff_right (by decide)).mp h)

namespace Platform

variable (p : Platform)

theorem slotAlign_dvd (kind : SlotKind) : p.slotAlign kind ∣ p.percpuRegionAlign := by
  cases kind with
  | metadata => exact dvd_of_isAlignment p.meta_isAlignment p.region_isAlignment p.meta_le
  | stack => exact dvd_of_isAlignment p.page_isAlignment p.region_isAlignment p.page_le
  | data => exact Nat.dvd_refl _

end Platform

theorem usizeAdd_eq_some {a b c : Nat} : usizeAdd a b = some c ↔ a + b ≤ usizeMax ∧ a + b = c := by
  rw [usizeAdd, Option.ite_none_right_eq_some, Option.some.injEq]

theorem usizeMul_eq_some {a b c : Nat} : usizeMul a b = some c ↔ a * b ≤ usizeMax ∧ a * b = c := by
  rw [usizeMul, Option.ite_none_right_eq_some, Option.some.injEq]

/-! ### Rows -/

namespace Prealloc

namespace LayoutInfo

def offset (l : LayoutInfo) : SlotKind → Nat
  | .metadata => l.metaRegionOffset
  | .stack => l.stackRegionOffset
  | .data => l.dataRegionOffset

def stride (l : LayoutInfo) : SlotKind → Nat
  | .metadata => l.metaStride
  | .stack => l.stackStride
  | .data => l.dataStride

/-- The place of a row among the rows. -/
def rank : SlotKind → Nat
  | .metadata => 0
  | .stack => 1
  | .data => 2

/-- Slots and rows are aligned, a slot takes its contents, and the rows of `n` slots follow one another. -/
structure Laid (p : Platform) (n : Nat) (l : LayoutInfo) : Prop where
  size_le : ∀ kind, p.slotSize kind ≤ l.stride kind
  dvd_offset : ∀ kind, p.slotAlign kind ∣ l.offset kind
  dvd_stride : ∀ kind, p.slotAlign kind ∣ l.stride kind
  stack_behind : l.offset .metadata + n * l.stride .metadata ≤ l.offset .stack
  data_behind : l.offset .stack + n * l.stride .stack ≤ l.offset .data
  total_behind : l.offset .data + n * l.stride .data ≤ l.totalSize

variable {p : Platform} {n : Nat} {l : LayoutInfo} {kind kind' : SlotKind}

theorem rank_injective : Function.Injective rank := by
  intro kind kind' h
  cases kind <;> cases kind' <;> first | rfl | simp [rank] at h

theorem Laid.behind (h : l.Laid p n) (hrank : rank kind < rank kind') :
    l.offset kind + n * l.stride kind ≤ l.offset kind' := by
  have hstack := h.stack_behind
  have hdata := h.data_behind
  cases kind <;> cases kind' <;> simp only [rank] at hrank <;> omega

theorem Laid.row_le (h : l.Laid p n) (kind : SlotKind) : l.offset kind + n * l.stride kind ≤ l.totalSize := by
  have hstack := h.stack_behind
  have hdata := h.data_behind
  have htotal := h.total_behind
  cases kind <;> omega

/-- The slots of a kind in a region that starts at `start`. -/
def row (h : l.Laid p n) (start : Nat) (kind : SlotKind) : Slots :=
  ⟨start + l.offset kind, l.stride kind, p.slotSize kind, h.size_le kind⟩

end LayoutInfo

variable {p : Platform} {n : Nat} {l : LayoutInfo}

theorem le_alignedSlotSize {size align slot : Nat} (ha : Align.IsAlignment align)
    (h : alignedSlotSize size align = some slot) : size ≤ slot :=
  (Nat.le_max_left size 1).trans (Align.le_up ha h)

theorem layoutInfo_laid (h : layoutInfo p n = some l) : l.Laid p n := by
  have hmeta := p.meta_isAlignment
  have hpage := p.page_isAlignment
  have hregion := p.region_isAlignment
  obtain ⟨metaStride, hmetaStride, h⟩ := Option.bind_eq_some_iff.mp h
  obtain ⟨_, hmetaSize, h⟩ := Option.bind_eq_some_iff.mp h
  obtain ⟨-, rfl⟩ := usizeMul_eq_some.mp hmetaSize
  obtain ⟨stackStride, hstackStride, h⟩ := Option.bind_eq_some_iff.mp h
  obtain ⟨stackOffset, hstackOffset, h⟩ := Option.bind_eq_some_iff.mp h
  obtain ⟨_, hstackSize, h⟩ := Option.bind_eq_some_iff.mp h
  obtain ⟨-, rfl⟩ := usizeMul_eq_some.mp hstackSize
  obtain ⟨dataStride, hdataStride, h⟩ := Option.bind_eq_some_iff.mp h
  obtain ⟨_, hstackEnd, h⟩ := Option.bind_eq_some_iff.mp h
  obtain ⟨-, rfl⟩ := usizeAdd_eq_some.mp hstackEnd
  obtain ⟨dataOffset, hdataOffset, h⟩ := Option.bind_eq_some_iff.mp h
  obtain ⟨_, hdataSize, h⟩ := Option.bind_eq_some_iff.mp h
  obtain ⟨-, rfl⟩ := usizeMul_eq_some.mp hdataSize
  obtain ⟨_, hdataEnd, h⟩ := Option.bind_eq_some_iff.mp h
  obtain ⟨-, rfl⟩ := usizeAdd_eq_some.mp hdataEnd
  obtain ⟨total, htotal, h⟩ := Option.bind_eq_some_iff.mp h
  obtain rfl := Option.some.inj h
  refine ⟨fun kind => ?_, fun kind => ?_, fun kind => ?_, ?_, ?_, ?_⟩
  · cases kind with
    | metadata => exact le_alignedSlotSize hmeta hmetaStride
    | stack => exact le_alignedSlotSize hpage hstackStride
    | data => exact le_alignedSlotSize hregion hdataStride
  · cases kind with
    | metadata => exact Nat.dvd_zero _
    | stack => exact Align.dvd_up hpage hstackOffset
    | data => exact Align.dvd_up hregion hdataOffset
  · cases kind with
    | metadata => exact Align.dvd_up hmeta hmetaStride
    | stack => exact Align.dvd_up hpage hstackStride
    | data => exact Align.dvd_up hregion hdataStride
  · show 0 + n * metaStride ≤ stackOffset
    rw [Nat.zero_add, Nat.mul_comm]
    exact Align.le_up hpage hstackOffset
  · show stackOffset + n * stackStride ≤ dataOffset
    rw [Nat.mul_comm]
    exact Align.le_up hregion hdataOffset
  · show dataOffset + n * dataStride ≤ total
    rw [Nat.mul_comm]
    exact Align.le_up hregion htotal

theorem slotStart_eq (hlayout : layoutInfo p p.cpuCount = some l) (hl : l.Laid p p.cpuCount) {start idx : Nat}
    (hfits : start + l.totalSize ≤ usizeMax) (hidx : idx < p.cpuCount) (kind : SlotKind) :
    slotStart (·.offset kind) (·.stride kind) p start idx = some (some ((l.row hl start kind).start idx)) := by
  have hrow := hl.row_le kind
  have hslot : idx * l.stride kind ≤ p.cpuCount * l.stride kind := Nat.mul_le_mul_right _ hidx.le
  have hrowFits : start + l.offset kind ≤ usizeMax := by omega
  have hdistance : idx * l.stride kind ≤ usizeMax := by omega
  have hstartFits : start + l.offset kind + idx * l.stride kind ≤ usizeMax := by omega
  rw [slotStart, if_neg (Nat.not_le.mpr hidx)]
  simp [hlayout, usizeAdd, usizeMul, hrowFits, hdistance, hstartFits, LayoutInfo.row, Slots.start]

end Prealloc

section Prealloc

open Prealloc

variable {p : Platform} {l : LayoutInfo} {percpu : Ranges.Range Nat} {idx : Nat}

theorem prealloc_slotStart (hlayout : layoutInfo p p.cpuCount = some l) (hl : l.Laid p p.cpuCount)
    (hfits : percpu.start + l.totalSize ≤ usizeMax) (hidx : idx < p.cpuCount) (kind : SlotKind) :
    Scheme.slotStart p percpu .prealloc kind idx = some ((l.row hl percpu.start kind).start idx) := by
  have hslot := slotStart_eq hlayout hl hfits hidx kind
  cases kind <;>
  · rw [Scheme.slotStart]
    exact congrArg (Option.bind · id) hslot

theorem prealloc_laidOut (hlayout : layoutInfo p p.cpuCount = some l) (hstart : p.percpuRegionAlign ∣ percpu.start)
    (hstop : percpu.start + l.totalSize = percpu.stop) (hfits : percpu.stop ≤ usizeMax) :
    LaidOut .prealloc p percpu := by
  have hl := layoutInfo_laid hlayout
  rw [← hstop] at hfits
  have hplace : ∀ {idx}, idx < p.cpuCount → ∀ kind,
      Scheme.slotStart p percpu .prealloc kind idx = some ((l.row hl percpu.start kind).start idx) :=
    fun hidx kind => prealloc_slotStart hlayout hl hfits hidx kind
  have hend : ∀ kind idx, idx < p.cpuCount →
      (l.row hl percpu.start kind).start idx + p.slotSize kind ≤
        percpu.start + (l.offset kind + p.cpuCount * l.stride kind) := by
    intro kind idx hidx
    rw [← Nat.add_assoc]
    exact Slots.end_le_start (s := l.row hl percpu.start kind) hidx
  have hbehind : ∀ kind idx kind' idx', idx < p.cpuCount → LayoutInfo.rank kind < LayoutInfo.rank kind' →
      (l.row hl percpu.start kind).start idx + p.slotSize kind ≤ (l.row hl percpu.start kind').start idx' := by
    intro kind idx kind' idx' hidx hrank
    have hrow : percpu.start + l.offset kind' ≤ (l.row hl percpu.start kind').start idx' :=
      (l.row hl percpu.start kind').base_le_start idx'
    have hone := hend kind idx hidx
    have hrows := hl.behind hrank
    omega
  refine ⟨fun kind idx hidx => ?_, ?_, fun idx hidx => ?_, fun idx found hfound => ?_⟩
  · refine ⟨_, hplace hidx kind, ?_, ?_, ?_⟩
    · exact (Nat.le_add_right _ (l.offset kind)).trans ((l.row hl percpu.start kind).base_le_start idx)
    · have hone := hend kind idx hidx
      have hrow := hl.row_le kind
      omega
    · refine Slots.dvd_start ?_ (hl.dvd_stride kind) idx
      exact Nat.dvd_add ((p.slotAlign_dvd kind).trans hstart) (hl.dvd_offset kind)
  · intro kind idx a kind' idx' a' hidx hidx' hne ha ha'
    obtain rfl := Option.some.inj ((hplace hidx kind).symm.trans ha)
    obtain rfl := Option.some.inj ((hplace hidx' kind').symm.trans ha')
    rcases Nat.lt_trichotomy (LayoutInfo.rank kind) (LayoutInfo.rank kind') with hlt | heq | hgt
    · exact Slots.disjoint_of_le (hbehind kind idx kind' idx' hidx hlt)
    · obtain rfl := LayoutInfo.rank_injective heq
      exact Slots.disjoint_span (s := l.row hl percpu.start kind) fun hidx => hne (hidx ▸ rfl)
    · exact (Slots.disjoint_of_le (hbehind kind' idx' kind idx hidx' hgt)).symm
  · rw [hplace hidx .metadata]
    exact slotStart_eq hlayout hl hfits hidx .metadata
  · rw [Scheme.cpuMetaAddr] at hfound
    by_cases hidx : idx < p.cpuCount
    · have heq := (slotStart_eq hlayout hl hfits hidx .metadata).symm.trans hfound
      obtain rfl := Option.some.inj heq
      exact iff_of_true rfl hidx
    · rw [cpuMetaStart, slotStart, if_pos (Nat.not_lt.mp hidx)] at hfound
      obtain rfl := Option.some.inj hfound
      exact iff_of_false (by simp) hidx

end Prealloc

/-! ### Areas -/

namespace Legacy

/-- The offsets of the slots in an area and its size. -/
structure Area where
  metaOffset : Nat
  stackOffset : Nat
  size : Nat

namespace Area

def offset (area : Area) : SlotKind → Nat
  | .metadata => area.metaOffset
  | .stack => area.stackOffset
  | .data => 0

def rank : SlotKind → Nat
  | .data => 0
  | .metadata => 1
  | .stack => 2

/-- The slots are aligned and follow one another in the area. -/
structure Laid (p : Platform) (area : Area) : Prop where
  dvd_offset : ∀ kind, p.slotAlign kind ∣ area.offset kind
  dvd_size : p.percpuRegionAlign ∣ area.size
  meta_behind : p.linkSize ≤ area.metaOffset
  stack_behind : area.metaOffset + perCpuMetaSize ≤ area.stackOffset
  size_behind : area.stackOffset + p.stackSize ≤ area.size

variable {p : Platform} {area : Area} {kind kind' : SlotKind}

theorem rank_injective : Function.Injective rank := by
  intro kind kind' h
  cases kind <;> cases kind' <;> first | rfl | simp [rank] at h

theorem Laid.behind (h : area.Laid p) (hrank : rank kind < rank kind') :
    area.offset kind + p.slotSize kind ≤ area.offset kind' := by
  have hmeta := h.meta_behind
  have hstack := h.stack_behind
  cases kind <;> cases kind' <;> simp only [rank, offset, Platform.slotSize] at hrank ⊢ <;> omega

theorem Laid.slot_le (h : area.Laid p) (kind : SlotKind) : area.offset kind + p.slotSize kind ≤ area.size := by
  have hmeta := h.meta_behind
  have hstack := h.stack_behind
  have hsize := h.size_behind
  cases kind <;> simp only [offset, Platform.slotSize] <;> omega

theorem Laid.size_pos (h : area.Laid p) : 0 < area.size := by
  have hslot := h.slot_le .metadata
  simp only [Platform.slotSize, perCpuMetaSize] at hslot
  omega

/-- The areas of a region that starts at `start`. -/
def row (area : Area) (start : Nat) : Slots := ⟨start, area.size, area.size, le_rfl⟩

theorem Laid.slot_end_le (h : area.Laid p) (start : Nat) {idx idx' : Nat}
    (hbefore : idx < idx' ∨ idx = idx' ∧ rank kind < rank kind') :
    (area.row start).start idx + area.offset kind + p.slotSize kind ≤
      (area.row start).start idx' + area.offset kind' := by
  rcases hbefore with hlt | ⟨rfl, hrank⟩
  · have hslot := h.slot_le kind
    have hnext : (area.row start).start idx + area.size ≤ (area.row start).start idx' := Slots.end_le_start hlt
    omega
  · have hbehind := h.behind hrank
    omega

theorem Laid.disjoint (h : area.Laid p) (start : Nat) {idx idx' : Nat} (hne : (kind, idx) ≠ (kind', idx')) :
    Disjoint
      (Set.Ico ((area.row start).start idx + area.offset kind)
        ((area.row start).start idx + area.offset kind + p.slotSize kind))
      (Set.Ico ((area.row start).start idx' + area.offset kind')
        ((area.row start).start idx' + area.offset kind' + p.slotSize kind')) := by
  rcases Nat.lt_trichotomy idx idx' with hlt | rfl | hgt
  · exact Slots.disjoint_of_le (h.slot_end_le start (.inl hlt))
  · rcases Nat.lt_trichotomy (rank kind) (rank kind') with hlt | heq | hgt
    · exact Slots.disjoint_of_le (h.slot_end_le start (.inr ⟨rfl, hlt⟩))
    · exact absurd (congrArg (·, idx) (rank_injective heq)) hne
    · exact (Slots.disjoint_of_le (h.slot_end_le start (.inr ⟨rfl, hgt⟩))).symm
  · exact (Slots.disjoint_of_le (h.slot_end_le start (.inl hgt))).symm

end Area

variable {p : Platform}

theorem area_of_percpuDataSize {size : Nat} (h : percpuDataSize p = some size) :
    ∃ area : Area, metaOffset p = some area.metaOffset ∧ stackOffset p = some area.stackOffset ∧ area.size = size ∧
      area.Laid p := by
  have hmeta := p.meta_isAlignment
  have hpage := p.page_isAlignment
  have hregion := p.region_isAlignment
  obtain ⟨stackOff, hstack, hrest⟩ := Option.bind_eq_some_iff.mp h
  obtain ⟨_, hadd, hsize⟩ := Option.bind_eq_some_iff.mp hrest
  obtain ⟨-, rfl⟩ := usizeAdd_eq_some.mp hadd
  obtain ⟨metaOff, hmetaOff, hrest⟩ := Option.bind_eq_some_iff.mp hstack
  obtain ⟨_, hadd, hstackOff⟩ := Option.bind_eq_some_iff.mp hrest
  obtain ⟨-, rfl⟩ := usizeAdd_eq_some.mp hadd
  refine ⟨⟨metaOff, stackOff, size⟩, hmetaOff, hstack, rfl, fun kind => ?_, Align.dvd_up hregion hsize,
    Align.le_up hmeta hmetaOff, Align.le_up hpage hstackOff, Align.le_up hregion hsize⟩
  cases kind with
  | metadata => exact Align.dvd_up hmeta hmetaOff
  | stack => exact Align.dvd_up hpage hstackOff
  | data => exact Nat.dvd_zero _

end Legacy

section Legacy

open Legacy

variable {p : Platform} {area : Area} {percpu : Ranges.Range Nat} {idx : Nat}

/-- The region consists of one area for each processor. -/
structure Areas (p : Platform) (percpu : Ranges.Range Nat) (area : Area) : Prop where
  metaOffset : Legacy.metaOffset p = some area.metaOffset
  stackOffset : Legacy.stackOffset p = some area.stackOffset
  size : percpuDataSize p = some area.size
  laid : area.Laid p
  start : p.percpuRegionAlign ∣ percpu.start
  stop : percpu.start + area.size * p.cpuCount = percpu.stop
  fits : percpu.stop ≤ usizeMax

namespace Areas

variable (h : Areas p percpu area)

include h

theorem end_le (hidx : idx < p.cpuCount) : (area.row percpu.start).start idx + area.size ≤ percpu.stop := by
  rw [← h.stop, Nat.mul_comm]
  exact Slots.end_le_start (s := area.row percpu.start) hidx

theorem slot_fits (hidx : idx < p.cpuCount) (kind : SlotKind) :
    idx * area.size ≤ usizeMax ∧ percpu.start + idx * area.size ≤ usizeMax ∧
      percpu.start + idx * area.size + area.offset kind ≤ usizeMax := by
  have hend : percpu.start + idx * area.size + area.size ≤ percpu.stop := h.end_le hidx
  have hslot := h.laid.slot_le kind
  have hfits := h.fits
  omega

theorem slotStart_eq (hidx : idx < p.cpuCount) (kind : SlotKind) :
    Scheme.slotStart p percpu .legacy kind idx = some ((area.row percpu.start).start idx + area.offset kind) := by
  obtain ⟨hdistance, hcpu, hall⟩ := h.slot_fits hidx kind
  have hstart : (area.row percpu.start).start idx = percpu.start + idx * area.size := rfl
  rw [hstart]
  cases kind <;>
  · simp only [Area.offset] at hall ⊢
    simp [Scheme.slotStart, slotStart, h.metaOffset, h.stackOffset, h.size, usizeMul, usizeAdd, hdistance, hcpu, hall]

theorem metaAddr (hidx : idx < p.cpuCount) :
    cpuMetaAddr p percpu idx = some (some ((area.row percpu.start).start idx + area.metaOffset)) := by
  obtain ⟨hdistance, hcpu, hmeta⟩ := h.slot_fits hidx .metadata
  have hend : percpu.start + idx * area.size + area.size ≤ percpu.stop := h.end_le hidx
  have hpos := h.laid.size_pos
  have hinside : ¬ percpu.start + idx * area.size ≥ percpu.stop := by omega
  have hstart : (area.row percpu.start).start idx = percpu.start + idx * area.size := rfl
  rw [hstart]
  simp only [Area.offset] at hmeta
  simp [cpuMetaAddr, h.size, h.metaOffset, usizeMul, usizeAdd, hdistance, hcpu, hinside, hmeta]

theorem metaAddr_isSome {found : Option Nat} (hfound : cpuMetaAddr p percpu idx = some found) :
    found.isSome ↔ idx < p.cpuCount := by
  simp only [cpuMetaAddr, h.size, Option.bind_eq_bind, Option.bind_some, Option.bind_eq_some_iff, usizeMul_eq_some,
    usizeAdd_eq_some] at hfound
  obtain ⟨_, ⟨-, rfl⟩, base, ⟨-, rfl⟩, hrest⟩ := hfound
  -- the areas in front of the end are those of the processors
  have hinside : percpu.start + idx * area.size < percpu.stop ↔ idx < p.cpuCount := by
    rw [← h.stop, Nat.mul_comm area.size, Nat.add_lt_add_iff_left]
    exact Nat.mul_lt_mul_right h.laid.size_pos
  rw [← hinside]
  split_ifs at hrest with hpast
  · obtain rfl := Option.some.inj hrest
    exact iff_of_false (by simp) (Nat.not_lt.mpr hpast)
  · obtain ⟨off, -, _, -, hsome⟩ := by simpa only [Option.bind_eq_some_iff] using hrest
    obtain rfl := Option.some.inj hsome
    exact iff_of_true rfl (Nat.not_le.mp hpast)

theorem laidOut : LaidOut .legacy p percpu := by
  refine ⟨fun kind idx hidx => ?_, ?_, fun idx hidx => ?_, fun idx found hfound => h.metaAddr_isSome hfound⟩
  · have hslot := h.laid.slot_le kind
    have hend := h.end_le hidx
    have hbase : percpu.start ≤ (area.row percpu.start).start idx := (area.row percpu.start).base_le_start idx
    refine ⟨_, h.slotStart_eq hidx kind, by omega, by omega, Nat.dvd_add ?_ (h.laid.dvd_offset kind)⟩
    refine (p.slotAlign_dvd kind).trans ?_
    exact Slots.dvd_start (s := area.row percpu.start) h.start h.laid.dvd_size idx
  · intro kind idx a kind' idx' a' hidx hidx' hne ha ha'
    obtain rfl := Option.some.inj ((h.slotStart_eq hidx kind).symm.trans ha)
    obtain rfl := Option.some.inj ((h.slotStart_eq hidx' kind').symm.trans ha')
    exact h.laid.disjoint percpu.start hne
  · rw [h.slotStart_eq hidx .metadata]
    exact h.metaAddr hidx

end Areas

end Legacy

/-! ### Both layouts -/

variable {p : Platform} {s s' : Early}

theorem allocPercpuRegion_aligned {size start : Nat} (h : allocPercpuRegion p size s = some (start, s')) :
    p.percpuRegionAlign ∣ start := by
  obtain ⟨s₁, -, hrest⟩ := Option.bind_eq_some_iff.mp h
  split_ifs at hrest
  obtain ⟨⟨addr, ram⟩, halloc, hrest⟩ := Option.bind_eq_some_iff.mp hrest
  obtain ⟨a, rfl, hrest⟩ := Option.bind_eq_some_iff.mp hrest
  obtain ⟨s₂, -, hpair⟩ := Option.bind_eq_some_iff.mp hrest
  obtain ⟨rfl, -⟩ := Prod.mk.inj (Option.some.inj hpair)
  obtain ⟨found, hup, hrest⟩ := Option.bind_eq_some_iff.mp halloc
  dsimp only at hrest
  split_ifs at hrest
  · exact absurd (Prod.mk.inj (Option.some.inj hrest)).1 (by simp)
  · obtain ⟨hfound, -⟩ := Prod.mk.inj (Option.some.inj hrest)
    exact Option.some.inj hfound ▸ Align.dvd_up p.region_isAlignment hup

/-- Whenever `alloc_percpu` gets its region, in either layout the slots of all processors are aligned, inside the region
and disjoint, and `cpu_meta_addr` finds metadata exactly for the processors there are. -/
theorem allocPercpu_laidOut (scheme : Scheme) (p : Platform) (s s' : Early) (percpu : Ranges.Range Nat)
    (h : scheme.allocPercpu p s = some (percpu, s')) : LaidOut scheme p percpu := by
  obtain ⟨size, hsize, hrest⟩ := Option.bind_eq_some_iff.mp h
  obtain ⟨⟨start, s₁⟩, hregion, hrest⟩ := Option.bind_eq_some_iff.mp hrest
  obtain ⟨_, hstop, hpair⟩ := Option.bind_eq_some_iff.mp hrest
  obtain ⟨hfits, rfl⟩ := usizeAdd_eq_some.mp hstop
  obtain ⟨rfl, -⟩ := Prod.mk.inj (Option.some.inj hpair)
  have haligned := allocPercpuRegion_aligned hregion
  cases scheme with
  | prealloc =>
    obtain ⟨l, hlayout, rfl⟩ := Option.map_eq_some_iff.mp hsize
    exact prealloc_laidOut hlayout haligned rfl hfits
  | legacy =>
    obtain ⟨one, hone, hmul⟩ := Option.bind_eq_some_iff.mp hsize
    obtain ⟨-, rfl⟩ := usizeMul_eq_some.mp hmul
    obtain ⟨area, hmeta, hstack, rfl, harea⟩ := Legacy.area_of_percpuDataSize hone
    exact Areas.laidOut ⟨hmeta, hstack, hone, harea, haligned, rfl, hfits⟩

/-- Three processors with pages of 4 KiB. -/
def threeCpus : Platform :=
  .someboot 0x1000 0x123 0x2345 3 ⟨12, by decide, rfl⟩

def freeMemory : Early := .init ⟨0x100000, 0x1100000⟩ [⟨0x100000, 0x1000000, .free⟩]

/-- The regions of the two layouts for three processors. -/
theorem allocPercpu_laidOut_three :
    (∃ s', Scheme.prealloc.allocPercpu threeCpus freeMemory = some (⟨0x100000, 0x10d000⟩, s') ∧
      LaidOut .prealloc threeCpus ⟨0x100000, 0x10d000⟩) ∧
    ∃ s', Scheme.legacy.allocPercpu threeCpus freeMemory = some (⟨0x100000, 0x10c000⟩, s') ∧
      LaidOut .legacy threeCpus ⟨0x100000, 0x10c000⟩ := by
  have hpre : (Scheme.prealloc.allocPercpu threeCpus freeMemory).map Prod.fst = some ⟨0x100000, 0x10d000⟩ := by
    decide +kernel
  have hleg : (Scheme.legacy.allocPercpu threeCpus freeMemory).map Prod.fst = some ⟨0x100000, 0x10c000⟩ := by
    decide +kernel
  obtain ⟨⟨_, s₁⟩, hs₁, rfl⟩ := Option.map_eq_some_iff.mp hpre
  obtain ⟨⟨_, s₂⟩, hs₂, rfl⟩ := Option.map_eq_some_iff.mp hleg
  exact ⟨⟨s₁, hs₁, allocPercpu_laidOut .prealloc threeCpus freeMemory s₁ _ hs₁⟩,
    ⟨s₂, hs₂, allocPercpu_laidOut .legacy threeCpus freeMemory s₂ _ hs₂⟩⟩

end Sparreal.Boot
