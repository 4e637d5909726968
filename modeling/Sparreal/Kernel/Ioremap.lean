import Sparreal.Kernel.PageTable

/-!
# Device memory

`PageTable::ioremap` of `hal/al.rs` and `iounmap` of `os/mem/paging.rs`. Both work out the pages of a range
of device memory from its physical address and its size; neither keeps a record of what is mapped. That a
mapping is nevertheless its owner's until it is unmapped (`ioremap_owned`) follows from three facts about the
page table: `map` fails where something is mapped, what a failed call leaves behind is in free addresses
only, and `unmap` of a range that was mapped in one call removes that range.
-/

namespace Sparreal.Kernel

open Paging

section Model

variable {P : Type} [PageTableEntry P] (T : TableMeta P) (A : FrameAllocator) (W : Windows) (root : PhysAddr)

def PageTableImpl.ioremap (physStart size : Nat) (flush : Bool) : Run P Nat := do
  let virt ← Exec.ofExcept (W.io physStart)
  let stop ← Exec.ofExcept (addUsize virt size)
  let vaddr := Align.down virt T.pageSize
  let paddr := Align.down physStart T.pageSize
  let stop ← Exec.ofExcept (alignUp stop T.pageSize)
  PageTableImpl.map T A root vaddr paddr (stop - vaddr) deviceSettings flush
  pure virt

def ioremap (physStart size : Nat) : Run P Nat := PageTableImpl.ioremap T A W root physStart size true

/-- `MmioRaw`, the record of a mapping. -/
structure MmioRaw where
  physAddr : Nat
  virt : Nat
  size : Nat
  deriving DecidableEq, Repr

def iounmap (mmio : MmioRaw) : Run P Unit := do
  let virt ← Exec.ofExcept (W.io mmio.physAddr)
  let stop ← Exec.ofExcept (addUsize virt mmio.size)
  let virtStart := Align.down virt T.pageSize
  let virtEnd ← Exec.ofExcept (alignUp stop T.pageSize)
  PageTableImpl.unmap T root virtStart (virtEnd - virtStart)

end Model

variable {P : Type} {T : TableMeta P} {W : Windows} {limit : Nat}

/-! ### The pages of a mapping -/

namespace MmioRaw

/-- The virtual address of the first byte, as `__io` gives it. -/
def base (W : Windows) (r : MmioRaw) : Nat := r.physAddr + W.ioOffset

/-- The addresses that are on a page with a byte of the mapping. -/
def pages (T : TableMeta P) (W : Windows) (r : MmioRaw) : Set Nat :=
  {x | ∃ i < r.size, x / T.pageSize = (r.base W + i) / T.pageSize}

/-- The pages as one stretch, mapped as `ioremap` maps it. -/
def stretch (T : TableMeta P) (W : Windows) (r : MmioRaw) : Stretch where
  start := r.base W / T.pageSize * T.pageSize
  stop := (r.base W + r.size - 1) / T.pageSize * T.pageSize + T.pageSize
  paddr := r.physAddr / T.pageSize * T.pageSize
  template := PageTableImpl.pte deviceSettings

/-- The mapping is not empty, its addresses and those of its pages stay in the address space, the pages end
below the last top-level entry, and an entry can hold their physical addresses. -/
structure InRange (T : TableMeta P) (W : Windows) (limit : Nat) (r : MmioRaw) : Prop where
  nonempty : 0 < r.size
  fits : r.base W + r.size + T.pageSize < usizeRange
  below : (r.stretch T W).stop + T.size T.ptLevel ≤ usizeRange
  limit : (r.stretch T W).paddr + ((r.stretch T W).stop - (r.stretch T W).start) ≤ limit

/-- The call of `map` that `ioremap` makes. -/
def config (T : TableMeta P) (W : Windows) (r : MmioRaw) : MapConfig where
  vaddr := (r.stretch T W).start
  paddr := (r.stretch T W).paddr
  size := (r.stretch T W).stop - (r.stretch T W).start
  pte := PageTableImpl.pte deviceSettings
  allowHuge := true
  flush := true

variable {r : MmioRaw}

theorem start_le : (r.stretch T W).start ≤ r.base W := Nat.div_mul_le_self _ _

theorem lt_start_add : r.base W < (r.stretch T W).start + T.pageSize := Nat.lt_div_mul_add T.pageSize_pos

theorem dvd_start : T.pageSize ∣ (r.stretch T W).start := Nat.dvd_mul_left _ _

theorem dvd_stop : T.pageSize ∣ (r.stretch T W).stop := Nat.dvd_add (Nat.dvd_mul_left _ _) dvd_rfl

theorem base_add_size_le : r.base W + r.size ≤ (r.stretch T W).stop := by
  have := Nat.lt_div_mul_add (a := r.base W + r.size - 1) T.pageSize_pos
  show _ ≤ (r.base W + r.size - 1) / T.pageSize * T.pageSize + T.pageSize
  omega

theorem mem_pages (hsize : 0 < r.size) {x : Nat} : x ∈ r.pages T W ↔ x ∈ (r.stretch T W).addresses := by
  have hpos := T.pageSize_pos
  have hfloor := Nat.div_mul_le_self x T.pageSize
  have hceil := Nat.lt_div_mul_add (a := x) hpos
  constructor
  · rintro ⟨i, hi, hx⟩
    have hlow := Nat.mul_le_mul_right T.pageSize
      (Nat.div_le_div_right (c := T.pageSize) (show r.base W ≤ r.base W + i by omega))
    have hhigh := Nat.mul_le_mul_right T.pageSize
      (Nat.div_le_div_right (c := T.pageSize) (show r.base W + i ≤ r.base W + r.size - 1 by omega))
    rw [← hx] at hlow hhigh
    exact ⟨hlow.trans hfloor, hceil.trans_le (Nat.add_le_add_right hhigh _)⟩
  · rintro ⟨hle, hlt⟩
    have hle := (Align.le_block_iff hpos dvd_start).mpr hle
    have hlt := (Align.block_le_iff hpos dvd_stop).mpr hlt
    have hstop : (r.stretch T W).stop = (r.base W + r.size - 1) / T.pageSize * T.pageSize + T.pageSize := rfl
    have hlast := Nat.div_mul_le_self (r.base W + r.size - 1) T.pageSize
    rcases hle.eq_or_lt with heq | hlt'
    · exact ⟨0, hsize, (Nat.eq_of_mul_eq_mul_right hpos heq).symm⟩
    · -- the page begins after the first byte, with a byte of the mapping
      have hnext : (r.stretch T W).start + T.pageSize ≤ x / T.pageSize * T.pageSize := by
        obtain ⟨k, hk⟩ := dvd_start (T := T) (W := W) (r := r)
        rw [hk, ← Nat.mul_succ, Nat.mul_comm, Nat.mul_le_mul_right_iff hpos]
        rw [hk, Nat.mul_comm, Nat.mul_lt_mul_right hpos] at hlt'
        exact hlt'
      have hfirst := lt_start_add (T := T) (W := W) (r := r)
      refine ⟨x / T.pageSize * T.pageSize - r.base W, by omega, ?_⟩
      rw [Nat.add_sub_cancel' (by omega), Nat.mul_div_cancel _ hpos]

theorem base_add_mem {i : Nat} (hi : i < r.size) : r.base W + i ∈ (r.stretch T W).addresses := by
  have hle := start_le (T := T) (W := W) (r := r)
  have hend := base_add_size_le (T := T) (W := W) (r := r)
  exact ⟨by omega, by omega⟩

theorem start_eq (hpage : T.pageSize ∣ W.ioOffset) :
    (r.stretch T W).start = (r.stretch T W).paddr + W.ioOffset := by
  show (r.physAddr + W.ioOffset) / T.pageSize * T.pageSize = _
  rw [Nat.add_div_of_dvd_left hpage, Nat.add_mul, Nat.div_mul_cancel hpage]
  rfl

namespace InRange

section

variable (h : r.InRange T W limit)

include h

theorem isAlignment : Align.IsAlignment T.pageSize := by
  have hfits := h.fits
  exact ⟨T.pageShift, (Nat.pow_lt_pow_iff_right (by decide)).mp (show 2 ^ T.pageShift < 2 ^ 64 by
    change T.pageSize < usizeRange
    omega), rfl⟩

theorem start_lt_stop : (r.stretch T W).start < (r.stretch T W).stop := by
  have hle := start_le (T := T) (W := W) (r := r)
  have hend := base_add_size_le (T := T) (W := W) (r := r)
  have hsize := h.nonempty
  omega

theorem stop_eq : alignUp (r.base W + r.size) T.pageSize = .ok (r.stretch T W).stop := by
  have hup := Align.up_eq_some.mpr ⟨h.fits, rfl⟩
  have hpos := T.pageSize_pos
  have hsize := h.nonempty
  have hfits := h.fits
  rw [alignUp, hup, Align.down_eq h.isAlignment (show _ < usizeRange by omega),
    show r.base W + r.size + T.pageSize - 1 = r.base W + r.size - 1 + T.pageSize by omega,
    Nat.add_div_right _ hpos, Nat.succ_mul]
  rfl

theorem io_eq : W.io r.physAddr = .ok (r.base W) := by
  have hfits := h.fits
  exact addUsize_eq_ok.mpr ⟨show r.base W < usizeRange by omega, rfl⟩

theorem add_size_eq : addUsize (r.base W) r.size = .ok (r.base W + r.size) := by
  have hfits := h.fits
  exact addUsize_eq_ok.mpr ⟨by omega, rfl⟩

theorem down_base_eq : Align.down (r.base W) T.pageSize = (r.stretch T W).start := by
  have hfits := h.fits
  exact Align.down_eq h.isAlignment (show r.base W < usizeRange by omega)

theorem addressable : T.Addressable T.ptLevel := by
  have hbelow := h.below
  have hlt := h.start_lt_stop
  have hshift : T.pageShift + (T.ptLevel - 1) * T.indexBits < 64 :=
    (Nat.pow_lt_pow_iff_right (a := 2) (by decide)).mp (show T.size T.ptLevel < usizeRange by omega)
  have hbits : T.indexBits ≤ T.pageShift := by
    refine (Nat.pow_le_pow_iff_right (a := 2) (by decide)).mp ?_
    rw [← T.len_eq]
    exact Nat.div_le_self _ _
  exact ⟨T.ptLevel_pos, le_rfl, hshift, by omega⟩

end

end InRange

theorem config_stretch (h : r.InRange T W limit) : (r.config T W).stretch T = r.stretch T W := by
  have hadd : (r.stretch T W).start + ((r.stretch T W).stop - (r.stretch T W).start) = (r.stretch T W).stop :=
    Nat.add_sub_cancel' h.start_lt_stop.le
  have hpos := T.pageSize_pos
  have hstop := T.eq_roundUp dvd_stop le_rfl (show (r.stretch T W).stop < _ + T.pageSize by omega)
  rw [MapConfig.stretch, Stretch.mk.injEq]
  refine ⟨rfl, ?_, rfl, rfl⟩
  change ((r.stretch T W).start + ((r.stretch T W).stop - (r.stretch T W).start) + T.pageSize - 1) /
    T.pageSize * T.pageSize = _
  rw [hadd, ← hstop]

end MmioRaw

/-! ### Calls -/

section Calls

variable [PageTableEntry P] {A : FrameAllocator} {root : PhysAddr} {m m' : Machine P} {r : MmioRaw}

theorem ioremap_eq (h : r.InRange T W limit) :
    ioremap T A W root r.physAddr r.size =
      (PageTableRef.map T A root (r.config T W) >>= fun _ => pure (r.base W) : Run P Nat) := by
  have hfits := h.fits
  have hphys : Align.down r.physAddr T.pageSize = (r.stretch T W).paddr :=
    Align.down_eq h.isAlignment (show r.physAddr < usizeRange by unfold MmioRaw.base at hfits; omega)
  rw [ioremap, PageTableImpl.ioremap, h.io_eq, Exec.ofExcept_ok_bind, h.add_size_eq, Exec.ofExcept_ok_bind,
    h.stop_eq, Exec.ofExcept_ok_bind, h.down_base_eq, hphys]
  rfl

theorem iounmap_eq (h : r.InRange T W limit) :
    iounmap T W root r = (PageTableRef.unmap T root (r.stretch T W).start
      ((r.stretch T W).stop - (r.stretch T W).start) : Run P Unit) := by
  rw [iounmap, h.io_eq, Exec.ofExcept_ok_bind, h.add_size_eq, Exec.ofExcept_ok_bind, h.stop_eq,
    Exec.ofExcept_ok_bind, h.down_base_eq]
  rfl

theorem config_returns (hpage : T.pageSize ∣ W.ioOffset) (h : r.InRange T W limit) (m : Machine P) :
    Returned (PageTableRef.map T A root (r.config T W) m).1 := by
  have hbelow := h.below
  have htop := Nat.le_of_dvd (T.size_pos _) (T.pageSize_dvd_size T.ptLevel)
  have hstart := MmioRaw.start_eq (r := r) hpage
  have hlt := h.start_lt_stop
  refine map_returns h.addressable A root ?_ ?_ m
  · show (r.stretch T W).start + ((r.stretch T W).stop - (r.stretch T W).start) + T.pageSize ≤ usizeRange
    omega
  · show (r.stretch T W).paddr + ((r.stretch T W).stop - (r.stretch T W).start) + T.pageSize ≤ usizeRange
    omega

theorem ioremap_ok (h : r.InRange T W limit) {virt : Nat}
    (hcall : ioremap T A W root r.physAddr r.size m = (.ok virt, m')) :
    virt = r.base W ∧ PageTableRef.map T A root (r.config T W) m = (.ok (), m') := by
  rw [ioremap_eq h] at hcall
  obtain ⟨⟨⟩, m₁, hmap, hpure⟩ := Exec.bind_eq_ok.mp hcall
  simp only [Exec.pure_apply, Prod.mk.injEq, Except.ok.injEq] at hpure
  obtain ⟨rfl, rfl⟩ := hpure
  exact ⟨rfl, hmap⟩

theorem ioremap_error (hpage : T.pageSize ∣ W.ioOffset) (h : r.InRange T W limit) {fault : Fault}
    (hcall : ioremap T A W root r.physAddr r.size m = (.error fault, m')) :
    ∃ error, PageTableRef.map T A root (r.config T W) m = (.error (.err error), m') := by
  rw [ioremap_eq h] at hcall
  rcases Exec.bind_eq_error.mp hcall with hmap | ⟨_, _, -, hpure⟩
  · have hr : Returned (PageTableRef.map T A root (r.config T W) m).1 := config_returns hpage h m
    rw [hmap] at hr
    match fault, hr with
    | .err error, _ => exact ⟨error, hmap⟩
  · simp at hpure

theorem iounmap_returns (root : PhysAddr) (h : r.InRange T W limit) (m : Machine P) :
    ∃ m', iounmap T W root r m = (.ok (), m') := by
  have hlt := h.start_lt_stop
  have hbelow := h.below
  have htop := T.size_pos T.ptLevel
  have hadd : (r.stretch T W).start + ((r.stretch T W).stop - (r.stretch T W).start) =
      (r.stretch T W).stop := Nat.add_sub_cancel' hlt.le
  rw [iounmap_eq h]
  refine unmap_returns root h.addressable ⟨Nat.sub_pos_of_lt hlt, MmioRaw.dvd_start,
    Nat.dvd_sub MmioRaw.dvd_stop MmioRaw.dvd_start, ?_⟩ ?_ m
  · rw [hadd]
    exact Nat.le_of_lt_succ (show (r.stretch T W).stop < usizeRange by omega)
  · rw [hadd]
    exact hbelow

end Calls

/-! ### Sequences of calls -/

/-- The machines and the live mappings that calls of `ioremap` and `iounmap` lead to from a page table. -/
inductive IoReachable {P : Type} [PageTableEntry P] (T : TableMeta P) (A : FrameAllocator) (W : Windows)
    (limit : Nat) (root : PhysAddr) : Machine P → List MmioRaw → Prop
  | table {m : Machine P} (hm : Reachable T A limit root m) : IoReachable T A W limit root m []
  | mapped {m m' : Machine P} {live : List MmioRaw} {r : MmioRaw} (h : IoReachable T A W limit root m live)
      (hr : r.InRange T W limit) (hcall : ioremap T A W root r.physAddr r.size m = (.ok r.virt, m')) :
      IoReachable T A W limit root m' (r :: live)
  | failed {m m' : Machine P} {live : List MmioRaw} {r : MmioRaw} {fault : Fault}
      (h : IoReachable T A W limit root m live) (hr : r.InRange T W limit)
      (hcall : ioremap T A W root r.physAddr r.size m = (.error fault, m')) :
      IoReachable T A W limit root m' live
  | unmapped {m m' : Machine P} {live : List MmioRaw} {r : MmioRaw} {res : Except Fault Unit}
      (h : IoReachable T A W limit root m live) (hr : r ∈ live)
      (hcall : iounmap T W root r m = (res, m')) : IoReachable T A W limit root m' (live.erase r)

/-- What the calls keep: the table owns the pages of the live mappings. -/
structure IoOwns {P : Type} [PageTableEntry P] (T : TableMeta P) (W : Windows) (limit : Nat) (root : PhysAddr)
    (m : Machine P) (live : List MmioRaw) : Prop where
  inRange : ∀ r ∈ live, r.InRange T W limit
  virt_eq : ∀ r ∈ live, r.virt = r.base W
  owned : ∃ t, Holds T limit root m t ∧ Owns T limit t (live.map (MmioRaw.stretch T W))

section Sequences

variable [PageTableEntry P] {A : FrameAllocator} {root : PhysAddr} {m m' : Machine P} {r : MmioRaw}
  {live : List MmioRaw} (hcodec : RoundTrips T limit)

include hcodec

/-- `iounmap` of a live mapping takes its pages out of the table, and no others. -/
theorem IoOwns.iounmap (hind : ValidIndependent P) (h : IoOwns T W limit root m live) (hr : r ∈ live) :
    ∃ m', iounmap T W root r m = (.ok (), m') ∧ IoOwns T W limit root m' (live.erase r) ∧
      ∀ x ∈ r.pages T W, PageTableRef.translate T m' root x = .error (.err .notMapped) := by
  have hrange := h.inRange r hr
  obtain ⟨t, hm, howns⟩ := h.owned
  obtain ⟨m', hok⟩ := iounmap_returns root hrange m
  have hperm : (live.map (MmioRaw.stretch T W)).Perm
      (r.stretch T W :: (live.erase r).map (MmioRaw.stretch T W)) := (List.perm_cons_erase hr).map _
  obtain ⟨t', hm', hnone, howns'⟩ := (howns.perm hperm).unmap_ok hcodec hind hm hrange.start_lt_stop.le
    (iounmap_eq (T := T) hrange ▸ hok)
  refine ⟨m', hok, ⟨fun r' hr' => h.inRange r' (List.mem_of_mem_erase hr'),
    fun r' hr' => h.virt_eq r' (List.mem_of_mem_erase hr'), t', hm', howns'⟩, fun x hx => ?_⟩
  exact hm'.translate_none hrange.addressable (hnone x ((MmioRaw.mem_pages hrange.nonempty).mp hx))

theorem IoReachable.owns (hind : ValidIndependent P) (hA : A.Fresh T limit)
    (hpage : T.pageSize ∣ W.ioOffset) (h : IoReachable T A W limit root m live) :
    IoOwns T W limit root m live := by
  induction h with
  | table hm =>
    obtain ⟨t, ht⟩ := hm.holds hcodec.keepsDirectories hA
    exact ⟨fun r hr => absurd hr List.not_mem_nil, fun r hr => absurd hr List.not_mem_nil, t, ht, .nil⟩
  | @mapped m m' live r _ hr hcall ih =>
    obtain ⟨t, hm, howns⟩ := ih.owned
    obtain ⟨hvirt, hmap⟩ := ioremap_ok hr hcall
    obtain ⟨-, -, t', hm', howns', -⟩ := howns.map_ok hcodec hA hm hr.limit hmap
    rw [MmioRaw.config_stretch hr] at howns'
    exact ⟨List.forall_mem_cons.mpr ⟨hr, ih.inRange⟩, List.forall_mem_cons.mpr ⟨hvirt, ih.virt_eq⟩,
      t', hm', howns'⟩
  | failed _ hr hcall ih =>
    obtain ⟨t, hm, howns⟩ := ih.owned
    obtain ⟨error, hmap⟩ := ioremap_error hpage hr hcall
    exact ⟨ih.inRange, ih.virt_eq, howns.map_error hcodec hA hm hr.limit hmap⟩
  | unmapped _ hr hcall ih =>
    obtain ⟨m₁, hok, howns, -⟩ := ih.iounmap hcodec hind hr
    obtain rfl := congrArg Prod.snd (hok.symm.trans hcall)
    exact howns

/-- After any calls of `ioremap` and `iounmap` every byte of a live mapping translates to its own physical
address, no two live mappings have a page in common, and unmapping one leaves none of its pages. -/
theorem ioremap_owned (hind : ValidIndependent P) (hA : A.Fresh T limit) (hpage : T.pageSize ∣ W.ioOffset)
    (h : IoReachable T A W limit root m live) :
    (∀ r ∈ live, ∀ i < r.size, ∃ pte,
        PageTableRef.translate T m root (r.virt + i) = .ok (r.physAddr + i, pte)) ∧
      (live.Pairwise fun a b => Disjoint (a.pages T W) (b.pages T W)) ∧
      ∀ r ∈ live, ∃ m', iounmap T W root r m = (.ok (), m') ∧
        ∀ x ∈ r.pages T W, PageTableRef.translate T m' root x = .error (.err .notMapped) := by
  have howned := h.owns hcodec hind hA hpage
  obtain ⟨t, hm, howns⟩ := howned.owned
  refine ⟨fun r hr i hi => ?_, ?_, fun r hr => ?_⟩
  · obtain ⟨l, base, htranslate⟩ := (howns.mapped _ (List.mem_map_of_mem hr) _
      (MmioRaw.base_add_mem hi)).translate hcodec hm (howned.inRange r hr).addressable
    have hstart := MmioRaw.start_eq (r := r) hpage
    have hle := MmioRaw.start_le (T := T) (W := W) (r := r)
    have hbase : r.base W = r.physAddr + W.ioOffset := rfl
    have hphys : (r.stretch T W).paddr + (r.base W + i - (r.stretch T W).start) = r.physAddr + i := by omega
    rw [hphys, ← howned.virt_eq r hr] at htranslate
    exact ⟨_, htranslate⟩
  · refine (List.pairwise_map.mp howns.apart).imp_of_mem fun {a b} ha hb hab => ?_
    have hdisjoint := hab.disjoint
    rw [Set.disjoint_left] at hdisjoint ⊢
    exact fun x hx hx' => hdisjoint ((MmioRaw.mem_pages (howned.inRange a ha).nonempty).mp hx)
      ((MmioRaw.mem_pages (howned.inRange b hb).nonempty).mp hx')
  · obtain ⟨m', hok, -, hnone⟩ := howned.iounmap hcodec hind hr
    exact ⟨m', hok, hnone⟩

end Sequences

/-- The windows of x86_64, where `__va` and `__io` are the identity. -/
def x86Windows : Windows where
  vaOffset := 0
  ioOffset := 0
  percpuOffset := 0xffff_ff00_0000_0000
  kimageOffset := 0

/-- Registers that begin in the middle of a page and end in the next. -/
def registers : MmioRaw := ⟨0xfebf0ff8, 0xfebf0ff8, 0x10⟩

/-- The machine after `ioremap` of the registers on a new table. -/
def registersMapped : Machine X86.Entry :=
  (ioremap X86.generic X86.bump x86Windows X86.root registers.physAddr registers.size X86.start).2

theorem ioremap_owned_registers :
    (∀ r ∈ [registers], ∀ i < r.size, ∃ pte,
        PageTableRef.translate X86.generic registersMapped X86.root (r.virt + i) =
          .ok (r.physAddr + i, pte)) ∧
      ([registers].Pairwise fun a b =>
        Disjoint (a.pages X86.generic x86Windows) (b.pages X86.generic x86Windows)) ∧
      ∀ r ∈ [registers], ∃ m', iounmap X86.generic x86Windows X86.root r registersMapped = (.ok (), m') ∧
        ∀ x ∈ r.pages X86.generic x86Windows,
          PageTableRef.translate X86.generic m' X86.root x = .error (.err .notMapped) := by
  have hrange : registers.InRange X86.generic x86Windows (2 ^ 52) :=
    ⟨by decide, by decide, by decide, by decide⟩
  have hok : (ioremap X86.generic X86.bump x86Windows X86.root registers.physAddr registers.size
      X86.start).1 = .ok registers.virt := by decide +kernel
  exact ioremap_owned X86.roundTrips X86.validIndependent X86.bump_fresh (Nat.dvd_zero _)
    (.mapped (.table X86.reachable_start) hrange (Prod.ext hok rfl))

end Sparreal.Kernel
