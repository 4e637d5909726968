import Sparreal.Boot.Setup
import Sparreal.Kernel.PageTable
import Sparreal.Paging.Built

/-!
# Mapping the memory map

`map_regions` of `os/mem/paging.rs` maps every descriptor of the memory map into the window of its type, and
on x86_64 the page of the local APIC anew. Any error is a panic.

Where the windows are apart the loop panics for want of frames, or at a descriptor that `map` does not take:
an empty one, one that is not on a page boundary, or one that shares a page with another (`loop_ok`,
`loop_total`).
-/

namespace Sparreal.Kernel

open Ranges Paging Boot

/-! ### The model -/

/-- The windows `map_regions` tells apart. -/
inductive Window where
  | linear
  | kimage
  | percpu
  deriving DecidableEq, Repr

def window : MemoryType → Window
  | .kImage => .kimage
  | .perCpuData => .percpu
  | _ => .linear

def Windows.address (W : Windows) : Window → Nat → Except Paging.Fault Nat
  | .linear => W.va
  | .kimage => W.kimageVa
  | .percpu => W.percpu

def settings : MemoryType → MemConfig
  | .mmio => deviceSettings
  | .perCpuData => ⟨{ read := true, write := true, execute := true }, .perCpu⟩
  | _ => ⟨{ read := true, write := true, execute := true }, .normal⟩

def imageAlign : Nat := 2 * 1024 * 1024

def mapSize (region : MemoryDescriptor) : Except Paging.Fault Nat :=
  match region.memoryType with
  | .kImage => alignUp region.sizeInBytes imageAlign
  | _ => .ok region.sizeInBytes

def lapicPhys : Nat := 0xfee0_0000

section Model

variable {P : Type} [PageTableEntry P] (T : TableMeta P) (A : FrameAllocator) (W : Windows) (root : PhysAddr)

/-- `unwrap_or_else(|err| panic!(..))` and `expect(..)`. -/
def unwrap (x : Run P Unit) : Run P Unit := fun m =>
  match x m with
  | (.error (.err _), m') => (.error .panic, m')
  | result => result

/-- `let _ = ..`. -/
def ignore (x : Run P Unit) : Run P Unit := fun m =>
  match x m with
  | (.error (.err _), m') => (.ok (), m')
  | result => result

/-- The body of the loop of `map_regions`. -/
def mapRegion (region : MemoryDescriptor) : Run P Unit := do
  let virt ← Exec.ofExcept (W.address (window region.memoryType) region.physicalStart)
  let size ← Exec.ofExcept (mapSize region)
  unwrap (PageTableImpl.map T A root virt region.physicalStart size (settings region.memoryType) false)

/-- The block of `map_regions` for x86_64. -/
def mapLapic : Run P Unit := do
  let lapicVirt ← Exec.ofExcept (W.io lapicPhys)
  ignore (PageTableImpl.unmap T root lapicVirt T.pageSize)
  unwrap (PageTableImpl.map T A root lapicVirt lapicPhys T.pageSize deviceSettings false)

def mapRegions (x86 : Bool) (regions : List MemoryDescriptor) : Run P Unit := do
  regions.forM (mapRegion T A W root)
  if x86 then mapLapic T A W root

end Model

variable {P : Type} {T : TableMeta P} {W : Windows} {limit : Nat}

/-! ### The calls of `map` -/

/-- The virtual address of the first byte of a descriptor. -/
def Windows.base (W : Windows) (r : MemoryDescriptor) : Nat :=
  ((W.address (window r.memoryType) r.physicalStart).toOption).getD 0

/-- The size that is mapped, where rounding up does not overflow. -/
def regionSize (r : MemoryDescriptor) : Nat :=
  match r.memoryType with
  | .kImage => (r.sizeInBytes + imageAlign - 1) / imageAlign * imageAlign
  | _ => r.sizeInBytes

/-- The call of `map` for a descriptor. -/
def request (W : Windows) (r : MemoryDescriptor) : MapConfig where
  vaddr := W.base r
  paddr := r.physicalStart
  size := regionSize r
  pte := PageTableImpl.pte (settings r.memoryType)
  allowHuge := true
  flush := false

/-- The virtual addresses on the pages of a descriptor. -/
def span (T : TableMeta P) (W : Windows) (r : MemoryDescriptor) : Set Nat :=
  ((request W r).stretch T).addresses

/-- The descriptors are in their windows: the address of every byte is that of the first byte and its
offset, pages end inside the address space and entries can hold their physical addresses. The index bits
tell the addresses of the pages apart, and pages in two windows have no address in common. -/
structure InWindows (T : TableMeta P) (W : Windows) (limit : Nat) (regions : List MemoryDescriptor) : Prop where
  shift : ∀ r ∈ regions, ∀ i, i = 0 ∨ i < r.sizeInBytes →
    W.address (window r.memoryType) (r.physicalStart + i) = .ok (W.base r + i)
  rounds : ∀ r ∈ regions, r.memoryType = .kImage → r.sizeInBytes + imageAlign < usizeRange
  virt : ∀ r ∈ regions, W.base r + regionSize r + T.pageSize ≤ usizeRange
  phys : ∀ r ∈ regions, r.physicalStart + regionSize r + T.pageSize ≤ usizeRange
  limit : ∀ r ∈ regions, r.physicalStart + regionSize r ≤ limit
  canonical : ∀ r ∈ regions, ∀ r' ∈ regions, ∀ x ∈ span T W r, ∀ y ∈ span T W r',
    x ≡ y [MOD 2 ^ T.ptValidBits] → x = y
  disjoint : ∀ r ∈ regions, ∀ r' ∈ regions, window r.memoryType ≠ window r'.memoryType →
    Disjoint (span T W r) (span T W r')

variable {r : MemoryDescriptor}

theorem mapSize_eq (h : r.memoryType = .kImage → r.sizeInBytes + imageAlign < usizeRange) :
    mapSize r = .ok (regionSize r) := by
  unfold mapSize regionSize
  split
  · rename_i htype
    have hlt := h htype
    have halign : Align.IsAlignment imageAlign := ⟨21, by decide, rfl⟩
    rw [alignUp, Align.up_eq_some.mpr ⟨hlt, rfl⟩, Align.down_eq halign (show _ < usizeRange by omega)]
  · rfl

theorem le_regionSize (r : MemoryDescriptor) : r.sizeInBytes ≤ regionSize r := by
  unfold regionSize
  split
  · have hlt := Nat.lt_div_mul_add (a := r.sizeInBytes + imageAlign - 1) (show 0 < imageAlign by decide)
    have hpos : 0 < imageAlign := by decide
    omega
  · exact le_rfl

theorem regionSize_of_ne (h : window r.memoryType ≠ .kimage) : regionSize r = r.sizeInBytes := by
  unfold regionSize
  split
  · rename_i htype
    rw [htype] at h
    exact absurd rfl h
  · rfl

theorem regionSize_pos : 0 < regionSize r ↔ 0 < r.sizeInBytes := by
  refine ⟨fun h => ?_, fun h => h.trans_le (le_regionSize r)⟩
  by_contra hzero
  have hzero : r.sizeInBytes = 0 := by omega
  unfold regionSize at h
  split at h
  · rw [hzero] at h
    exact absurd h (by decide)
  · omega

/-! ### Pages of descriptors -/

/-- The descriptors `map` takes, if no two of them have a page in common. -/
structure Aligned (T : TableMeta P) (W : Windows) (r : MemoryDescriptor) : Prop where
  nonempty : 0 < r.sizeInBytes
  phys : T.pageSize ∣ r.physicalStart
  virt : T.pageSize ∣ W.base r

variable {regions : List MemoryDescriptor} {a b r : MemoryDescriptor}

theorem span_below (ha : W.base a + regionSize a ≤ W.base b) (hb : T.pageSize ∣ W.base b) :
    Disjoint (span T W a) (span T W b) := by
  rw [Set.disjoint_left]
  rintro x ⟨-, hlt⟩ ⟨hle, -⟩
  have hpos := T.pageSize_pos
  have hround : ((request W a).stretch T).stop ≤ W.base b := by
    obtain ⟨k, hk⟩ := hb
    show (W.base a + regionSize a + T.pageSize - 1) / T.pageSize * T.pageSize ≤ _
    rw [hk, Nat.mul_comm T.pageSize, Nat.mul_le_mul_right_iff hpos]
    refine Nat.le_of_lt_succ ((Nat.div_lt_iff_lt_mul hpos).mpr ?_)
    rw [Nat.succ_mul, Nat.mul_comm, ← hk]
    omega
  exact absurd (hlt.trans_le hround) (not_lt.mpr hle)

namespace InWindows

variable (h : InWindows T W limit regions)

include h

theorem base_eq (hr : r ∈ regions) :
    W.address (window r.memoryType) r.physicalStart = .ok (W.base r) := h.shift r hr 0 (.inl rfl)

theorem base_add (ha : a ∈ regions) (hb : b ∈ regions) (hab : window a.memoryType = window b.memoryType)
    (himage : window a.memoryType ≠ .kimage) : W.base a + b.physicalStart = W.base b + a.physicalStart := by
  have hbase := h.base_eq ha
  have hbase' := h.base_eq hb
  rw [← hab] at hbase'
  cases hwindow : window a.memoryType with
  | kimage => exact absurd hwindow himage
  | linear | percpu =>
    rw [hwindow] at hbase hbase'
    have := (addUsize_eq_ok.mp hbase).2
    have := (addUsize_eq_ok.mp hbase').2
    omega

/-- Descriptors in one of these windows that share no address share no page. -/
theorem disjoint_of_points (ha : a ∈ regions) (hb : b ∈ regions) (haligned : Aligned T W a)
    (haligned' : Aligned T W b) (hab : window a.memoryType = window b.memoryType)
    (himage : window a.memoryType ≠ .kimage) (hpoints : Disjoint (points a) (points b)) :
    Disjoint (span T W a) (span T W b) := by
  have hbase := h.base_add ha hb hab himage
  have hsize := regionSize_of_ne himage
  have hsize' := regionSize_of_ne (hab ▸ himage)
  have hnonempty := haligned.nonempty
  have hnonempty' := haligned'.nonempty
  have hends : min (a.physicalStart + a.sizeInBytes) (b.physicalStart + b.sizeInBytes) ≤
      max a.physicalStart b.physicalStart := Set.Ico_disjoint_Ico.mp hpoints
  rcases le_total a.physicalStart b.physicalStart with hle | hle
  · exact span_below (by omega) haligned'.virt
  · exact (span_below (by omega) haligned.virt).symm

theorem address_eq (hr : r ∈ regions) {x : Nat} (hx : x ∈ points r) :
    ∃ v ∈ span T W r, W.address (window r.memoryType) x = .ok v ∧ r.physicalStart + (v - W.base r) = x := by
  obtain ⟨hle, hlt⟩ := hx
  obtain ⟨i, rfl⟩ := Nat.exists_eq_add_of_le hle
  have hi : i < r.sizeInBytes := Nat.lt_of_add_lt_add_left hlt
  have hsize := le_regionSize r
  refine ⟨W.base r + i, ?_, h.shift r hr i (.inr hi), by rw [Nat.add_sub_cancel_left]; rfl⟩
  exact MapConfig.mem_stretch T (Nat.le_add_right _ _) (Nat.add_lt_add_left (hi.trans_le hsize) _)

theorem apart_iff (ha : a ∈ regions) (hb : b ∈ regions) :
    ((request W a).stretch T).Apart T ((request W b).stretch T) ↔ Disjoint (span T W a) (span T W b) := by
  refine ⟨fun hapart => hapart.disjoint, fun hdisjoint x hx y hy hxy => ?_⟩
  rw [T.size_ptLevel_succ] at hxy
  obtain rfl := h.canonical a ha b hb x hx y hy hxy
  exact Set.disjoint_left.mp hdisjoint hx hy

theorem accepted_iff (hr : r ∈ regions) : (request W r).Accepted T ↔ Aligned T W r := by
  have hvirt := h.virt r hr
  have hphys := h.phys r hr
  have hpos := T.pageSize_pos
  refine ⟨fun hacc => ⟨regionSize_pos.mp hacc.size_pos, hacc.paddr_aligned, hacc.vaddr_aligned⟩,
    fun hr => ⟨regionSize_pos.mpr hr.nonempty, hr.virt, hr.phys, ?_, ?_⟩⟩
  · exact Nat.le_of_lt_succ (show W.base r + regionSize r < usizeRange by omega)
  · exact Nat.le_of_lt_succ (show r.physicalStart + regionSize r < usizeRange by omega)

theorem mappable (hr : r ∈ regions) (haligned : Aligned T W r) :
    Mappable T limit T.ptLevel (W.base r + regionSize r) (W.base r) r.physicalStart := by
  have hphys := h.phys r hr
  have hlimit := h.limit r hr
  refine ⟨h.virt r hr, fun _ => by omega, fun _ => ⟨haligned.virt, haligned.phys, by omega⟩,
    fun x y hx hxe hy hye hxy => ?_⟩
  rw [T.size_ptLevel_succ] at hxy
  exact h.canonical r hr r hr x (MapConfig.mem_stretch T hx hxe) y (MapConfig.mem_stretch T hy hye) hxy

end InWindows

/-! ### The loop -/

section Calls

variable {m m' : Machine P}

theorem unwrap_eq_ok {x : Run P Unit} : unwrap x m = (.ok (), m') ↔ x m = (.ok (), m') := by
  unfold unwrap
  split
  · rename_i hx
    rw [hx]
    simp
  · exact Iff.rfl

theorem unwrap_err {x : Run P Unit} {error : PagingError} (h : x m = (.error (.err error), m')) :
    unwrap x m = (.error .panic, m') := by
  unfold unwrap
  rw [h]

theorem ignore_ok {x : Run P Unit} (h : x m = (.ok (), m')) : ignore x m = (.ok (), m') := by
  unfold ignore
  rw [h]

variable [PageTableEntry P] {A : FrameAllocator} {root : PhysAddr} {t : Paging.Tree P}

theorem InWindows.mapRegion_eq (h : InWindows T W limit regions) (hr : r ∈ regions) :
    mapRegion T A W root r = (unwrap (PageTableRef.map T A root (request W r)) : Run P Unit) := by
  rw [mapRegion, h.base_eq hr, Exec.ofExcept_ok_bind, mapSize_eq (h.rounds r hr), Exec.ofExcept_ok_bind]
  rfl

variable (hcodec : RoundTrips T limit) (hA : A.Fresh T limit) {all : List MemoryDescriptor}
  {done : List MapConfig}

include hcodec hA

/-- A loop that returns has built on the table. -/
theorem InWindows.loop_ok (h : InWindows T W limit all) (hsub : regions ⊆ all) (hm : Holds T limit root m t)
    (hbuilt : Built T limit t done)
    (hrun : regions.forM (mapRegion T A W root) m = (.ok (), m')) :
    (∀ r ∈ regions, Aligned T W r) ∧ ∃ t', Holds T limit root m' t' ∧
      Built T limit t' ((regions.map (request W)).reverse ++ done) := by
  induction regions generalizing m t done with
  | nil =>
    obtain ⟨-, rfl⟩ := Prod.mk.inj hrun
    exact ⟨fun r hr => absurd hr List.not_mem_nil, t, hm, hbuilt⟩
  | cons r regions ih =>
    obtain ⟨hr, hsub⟩ := List.cons_subset.mp hsub
    rw [Exec.forM_cons] at hrun
    obtain ⟨⟨⟩, m₁, hmap, hrest⟩ := Exec.bind_eq_ok.mp hrun
    rw [h.mapRegion_eq hr] at hmap
    obtain ⟨haccepted, t₁, hm₁, hbuilt₁⟩ := hbuilt.map_ok hcodec hA hm (h.limit r hr) (unwrap_eq_ok.mp hmap)
    obtain ⟨haligned, t', hm', hbuilt'⟩ := ih hsub hm₁ hbuilt₁ hrest
    refine ⟨List.forall_mem_cons.mpr ⟨(h.accepted_iff hr).mp haccepted, haligned⟩, t', hm', ?_⟩
    rw [List.map_cons, List.reverse_cons, List.append_assoc]
    exact hbuilt'

/-- The loop returns if no two descriptors have a page in common, or the allocator refuses a frame. -/
theorem InWindows.loop_total (hl : T.Addressable T.ptLevel) (h : InWindows T W limit all)
    (hsub : regions ⊆ all) (hm : Holds T limit root m t) (hbuilt : Built T limit t done)
    (haligned : ∀ r ∈ regions, Aligned T W r)
    (hapart : (regions.map fun r => (request W r).stretch T).Pairwise (Stretch.Apart T))
    (hdone : ∀ r ∈ regions, ∀ config ∈ done, ((request W r).stretch T).Apart T (config.stretch T)) :
    (∃ m', regions.forM (mapRegion T A W root) m = (.ok (), m')) ∨
      ∃ m', regions.forM (mapRegion T A W root) m = (.error .panic, m') ∧ .refuse ∈ m'.log := by
  induction regions generalizing m t done with
  | nil => exact .inl ⟨m, rfl⟩
  | cons r regions ih =>
    obtain ⟨hr, hsub⟩ := List.cons_subset.mp hsub
    obtain ⟨hr', haligned⟩ := List.forall_mem_cons.mp haligned
    obtain ⟨hfirst, hapart⟩ := List.pairwise_cons.mp hapart
    rw [Exec.forM_cons]
    rcases hbuilt.map_total hcodec hA hl hm ((h.accepted_iff hr).mpr hr') (h.mappable hr hr')
      (hdone r List.mem_cons_self) with ⟨m₁, hmap⟩ | ⟨m₁, hmap, hrefuse⟩
    · obtain ⟨-, t₁, hm₁, hbuilt₁⟩ := hbuilt.map_ok hcodec hA hm (h.limit r hr) hmap
      rw [Exec.bind_apply_ok (by rw [h.mapRegion_eq hr]; exact unwrap_eq_ok.mpr hmap)]
      refine ih hsub hm₁ hbuilt₁ haligned hapart fun r' hr' => List.forall_mem_cons.mpr ⟨?_, ?_⟩
      · exact (hfirst _ (List.mem_map_of_mem hr')).symm
      · exact hdone r' (List.mem_cons_of_mem r hr')
    · refine .inr ⟨m₁, Exec.bind_eq_error.mpr (.inl ?_), hrefuse⟩
      rw [h.mapRegion_eq hr]
      exact unwrap_err hmap

end Calls

end Sparreal.Kernel
