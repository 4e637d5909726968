import Sparreal.Kernel.Ioremap
import Sparreal.Kernel.MapRegions

/-!
# The page table of the kernel

What `map_regions` leaves. The loop leaves every byte of every descriptor translated. The block for x86_64
then unmaps the page of the local APIC; if that page is in a huge page, `unmap` takes the whole huge page
away, and only one page of it is mapped again.
-/

namespace Sparreal.Kernel

open Ranges Paging Boot

variable {P : Type} {T : TableMeta P} {W : Windows} {limit : Nat} {regions : List MemoryDescriptor}
  {r : MemoryDescriptor}

/-! ### The page of the local APIC -/

/-- The call of `map` for the local APIC. -/
def lapicRequest (T : TableMeta P) : MapConfig where
  vaddr := lapicPhys
  paddr := lapicPhys
  size := T.pageSize
  pte := PageTableImpl.pte deviceSettings
  allowHuge := true
  flush := false

def lapicPage (T : TableMeta P) : Set Nat := Set.Ico lapicPhys (lapicPhys + T.pageSize)

/-- The page is in the linear window, and there only, where addresses are physical ones. The table has huge
pages. -/
structure LapicInWindow (T : TableMeta P) (W : Windows) (limit : Nat) (regions : List MemoryDescriptor) :
    Prop where
  va : W.vaOffset = 0
  io : W.ioOffset = 0
  aligned : T.pageSize ∣ lapicPhys
  below : lapicPhys + T.pageSize + T.size T.ptLevel ≤ usizeRange
  limit : lapicPhys + T.pageSize ≤ limit
  level : 2 ≤ T.ptLevel
  block : 2 ≤ T.maxBlockLevel
  huge : T.pageSize < T.size 2
  canonical : ∀ r ∈ regions, ∀ x ∈ span T W r, ∀ y ∈ lapicPage T, x ≡ y [MOD 2 ^ T.ptValidBits] → x = y
  linear : ∀ r ∈ regions, ∀ x ∈ span T W r, x ∈ lapicPage T → window r.memoryType = .linear

/-- `t'` is `t` with the page mapped anew: the entry it was in is gone. -/
structure LapicMapped [PageTableEntry P] (T : TableMeta P) (limit : Nat) (t t' : Paging.Tree P) : Prop where
  mapped : ∀ x ∈ lapicPage T, MappedAt T limit (PageTableImpl.pte deviceSettings) T.ptLevel t' lapicPhys
    lapicPhys (lapicPhys + T.pageSize) x
  lost : ∀ {a b pte l}, (∀ y ∈ lapicPage T, ¬ a ≡ y [MOD 2 ^ T.ptValidBits]) →
    lookup T T.ptLevel t lapicPhys = some (pte, l) → a ≡ b [MOD 2 ^ T.ptValidBits] →
    b / T.size l = lapicPhys / T.size l → lookup T T.ptLevel t' a = none
  kept : ∀ {a pte l}, (∀ y ∈ lapicPage T, ¬ a ≡ y [MOD 2 ^ T.ptValidBits]) →
    lookup T T.ptLevel t a = some (pte, l) →
    (∀ b, a ≡ b [MOD 2 ^ T.ptValidBits] → b / T.size l ≠ lapicPhys / T.size l) →
    lookup T T.ptLevel t' a = some (pte, l)

namespace LapicInWindow

section

variable (h : LapicInWindow T W limit regions)

include h

theorem lapicRequest_stretch :
    (lapicRequest T).stretch T =
      ⟨lapicPhys, lapicPhys + T.pageSize, lapicPhys, PageTableImpl.pte deviceSettings⟩ := by
  have hpos := T.pageSize_pos
  rw [MapConfig.stretch, Stretch.mk.injEq]
  exact ⟨rfl, (T.eq_roundUp (Nat.dvd_add h.aligned dvd_rfl) le_rfl (by omega)).symm, rfl, rfl⟩

theorem accepted : (lapicRequest T).Accepted T := by
  have hbelow := h.below
  have hpos := T.size_pos T.ptLevel
  have hfits : lapicPhys + T.pageSize ≤ usizeMax :=
    Nat.le_of_lt_succ (show lapicPhys + T.pageSize < usizeRange by omega)
  exact ⟨T.pageSize_pos, h.aligned, h.aligned, hfits, hfits⟩

theorem mappable : Mappable T limit T.ptLevel (lapicPhys + T.pageSize) lapicPhys lapicPhys := by
  have hbelow := h.below
  have hlimit := h.limit
  have htop := Nat.le_of_dvd (T.size_pos _) (T.pageSize_dvd_size T.ptLevel)
  refine ⟨by omega, fun _ => by omega, fun _ => ⟨h.aligned, h.aligned, by omega⟩,
    fun x y hx hxe hy hye hxy => ?_⟩
  -- two addresses of one page differ by less than a page
  have hpage := hxy.of_dvd (T.pageSize_dvd_size _)
  obtain ⟨i, rfl⟩ := Nat.exists_eq_add_of_le hx
  obtain ⟨j, rfl⟩ := Nat.exists_eq_add_of_le hy
  have hij := Nat.ModEq.add_left_cancel' _ hpage
  rw [hij.eq_of_lt_of_lt (by omega) (by omega)]

theorem va_eq {x v : Nat} (hx : W.address .linear x = .ok v) : v = x := by
  have hadd := (addUsize_eq_ok.mp hx).2
  rwa [h.va] at hadd

theorem exists_beside : ∃ x, x / T.size 2 = lapicPhys / T.size 2 ∧ x ∉ lapicPage T := by
  have hhuge := h.huge
  have hpos := T.size_pos 2
  rcases (Nat.div_mul_le_self lapicPhys (T.size 2)).eq_or_lt with heq | hlt
  · refine ⟨lapicPhys + T.pageSize, ?_, fun hmem => hmem.2.false⟩
    rw [← heq, Nat.add_comm, Nat.add_mul_div_right _ _ hpos, Nat.div_eq_of_lt hhuge, Nat.zero_add,
      Nat.mul_div_cancel _ hpos]
  · exact ⟨_, Nat.mul_div_cancel _ hpos, fun hmem => hmem.1.not_gt hlt⟩

end

variable [PageTableEntry P] {A : FrameAllocator} {root : PhysAddr} {m m' : Machine P} {t : Paging.Tree P}

theorem mapLapic_eq (h : LapicInWindow T W limit regions) :
    mapLapic T A W root = (do
      ignore (PageTableRef.unmap T root lapicPhys T.pageSize)
      unwrap (PageTableRef.map T A root (lapicRequest T)) : Run P Unit) := by
  have hio : W.io lapicPhys = .ok lapicPhys := by
    rw [Windows.io, h.io]
    rfl
  rw [mapLapic, hio, Exec.ofExcept_ok_bind]
  rfl

/-- `unmap` returns, and `map` finds the page free. -/
theorem mapLapic_cases (hcodec : RoundTrips T limit) (hind : ValidIndependent P) (hA : A.Fresh T limit)
    (hl : T.Addressable T.ptLevel) (h : LapicInWindow T W limit regions) (hm : Holds T limit root m t)
    (hdense : Dense T T.ptLevel t) :
    (∃ m' t', mapLapic T A W root m = (.ok (), m') ∧ Holds T limit root m' t' ∧ LapicMapped T limit t t') ∨
      ∃ m', mapLapic T A W root m = (.error .panic, m') ∧ .refuse ∈ m'.log := by
  have hpos := T.pageSize_pos
  have haccepted := h.accepted
  obtain ⟨m₁, hunmap⟩ := unmap_returns root hl
    ⟨T.pageSize_pos, h.aligned, dvd_rfl, haccepted.vaddr_fits⟩ h.below m
  obtain ⟨_, t₁, hm₁, hrun⟩ := unmap_run hcodec hm hunmap
  have hunmaps := hrun.unmaps hcodec hind hm.wellFormed T.ptLevel_pos
  have hdense₁ := hdense.pruned hind (hrun.pruned hcodec hind hm.wellFormed T.ptLevel_pos)
  have hfree : ∀ x, lapicPhys ≤ x → x < lapicPhys + T.pageSize → lookup T T.ptLevel t₁ x = none := by
    intro x hle hlt
    refine hunmaps.page_free h.aligned (T.div_eq_of_lt_entryEnd hle ?_)
    rwa [T.entryEnd_of_dvd (by rw [T.size_one]; exact h.aligned), T.size_one]
  rw [h.mapLapic_eq, Exec.bind_apply_ok (ignore_ok hunmap)]
  rcases map_free hcodec hA hl hm₁ hdense₁ haccepted h.mappable hfree with
    ⟨m', hmap⟩ | ⟨m', hmap, hrefuse⟩
  · obtain ⟨-, -, t', hm', howns, hframe⟩ := Owns.nil.map_ok hcodec hA hm₁ h.limit hmap
    rw [h.lapicRequest_stretch] at howns hframe
    rw [T.size_ptLevel_succ] at hframe
    refine .inl ⟨m', t', unwrap_eq_ok.mpr hmap, hm', howns.mapped _ List.mem_cons_self, ?_, ?_⟩
    · intro a b pte l haway hsome hab hdiv
      rw [← T.size_ptLevel_succ] at hab
      exact (hframe a haway).trans ((hunmaps.of_page h.aligned).1 hsome hab hdiv)
    · intro a pte l haway hsome hother
      rw [← T.size_ptLevel_succ] at hother
      exact (hframe a haway).trans (((hunmaps.of_page h.aligned).2 hsome hother).trans hsome)
  · exact .inr ⟨m', unwrap_err hmap, hrefuse⟩

end LapicInWindow

/-! ### What is translated -/

/-- Every byte of every descriptor translates, in the window of its type, to its own physical address. -/
def Translates [PageTableEntry P] (T : TableMeta P) (W : Windows) (m : Machine P) (root : PhysAddr)
    (regions : List MemoryDescriptor) : Prop :=
  ∀ r ∈ regions, ∀ x ∈ points r, ∃ v pte, W.address (window r.memoryType) x = .ok v ∧
    PageTableRef.translate T m root v = .ok (x, pte)

/-- The huge page around the page of the local APIC is in the descriptor. -/
def HasLapicBlock (T : TableMeta P) (W : Windows) (r : MemoryDescriptor) : Prop :=
  FitsBlock T (W.base r + regionSize r) (W.base r) r.physicalStart 2 lapicPhys

section Translation

variable [PageTableEntry P] {root : PhysAddr} {m m' : Machine P} {t t' : Paging.Tree P}
  (hcodec : RoundTrips T limit) (hl : T.Addressable T.ptLevel)

include hcodec hl

theorem InWindows.translates (h : InWindows T W limit regions) (hm : Holds T limit root m t)
    (hplaced : ∀ r ∈ regions, Placed T limit t (request W r)) : Translates T W m root regions := by
  intro r hr x hx
  obtain ⟨v, hv, haddress, rfl⟩ := h.address_eq hr hx
  obtain ⟨l, base, htranslate⟩ := ((hplaced r hr).mapped v hv).translate hcodec hm hl
  exact ⟨v, _, haddress, htranslate⟩

omit hcodec hl in
/-- The entry of an address that is not on the page has no alias of the page, unless it is a huge page
around it. -/
theorem LapicInWindow.not_alias (hlapic : LapicInWindow T W limit regions) (h : InWindows T W limit regions)
    (hr : r ∈ regions) (hplaced : Placed T limit t (request W r)) (hblock : ¬ HasLapicBlock T W r)
    {v b l : Nat} {pte : P} (hv : v ∈ span T W r) (hsome : lookup T T.ptLevel t v = some (pte, l))
    (haway : ∀ y ∈ lapicPage T, ¬ v ≡ y [MOD 2 ^ T.ptValidBits]) (hvb : v ≡ b [MOD 2 ^ T.ptValidBits]) :
    b / T.size l ≠ lapicPhys / T.size l := by
  intro hdiv
  obtain ⟨hpos, hle⟩ := lookup_level hsome
  rcases (show 1 ≤ l from hpos).eq_or_lt with rfl | hlt
  · rw [T.size_one] at hdiv
    refine haway b ⟨?_, ?_⟩ hvb
    · rw [← Align.le_block_iff T.pageSize_pos hlapic.aligned, hdiv, Nat.div_mul_cancel hlapic.aligned]
    · rw [← Align.block_le_iff T.pageSize_pos (Nat.dvd_add hlapic.aligned dvd_rfl), hdiv,
        Nat.div_mul_cancel hlapic.aligned]
  · -- the block of the address has the page itself: there is no other alias of it on the pages
    obtain ⟨y, hvy, hfits⟩ := hplaced.fits hv hsome hlt
    rw [T.size_ptLevel_succ] at hvy
    obtain rfl := h.canonical r hr r hr v hv y (MapConfig.mem_stretch T hfits.le hfits.lt) hvy
    rw [← T.size_ptLevel_succ] at hvb
    obtain ⟨c, hc, hcv⟩ := T.exists_alias hvb (hle.trans (Nat.le_succ _)) hdiv
    rw [T.size_ptLevel_succ] at hc
    have hfits := hfits.congr hcv.symm
    have hpage : lapicPhys ∈ lapicPage T := ⟨le_rfl, Nat.lt_add_of_pos_right T.pageSize_pos⟩
    obtain rfl := hlapic.canonical r hr c (MapConfig.mem_stretch T hfits.le hfits.lt) _ hpage hc
    exact hblock (hfits.mono hlt)

/-- The page of the local APIC translates as the linear window would have it, and no other entry of the
loop is lost, unless it is a huge page around it. -/
theorem LapicMapped.translates (h : InWindows T W limit regions) (hlapic : LapicInWindow T W limit regions)
    (hm' : Holds T limit root m' t') (hplaced : ∀ r ∈ regions, Placed T limit t (request W r))
    (hmapped : LapicMapped T limit t t') (hblock : ∀ r ∈ regions, ¬ HasLapicBlock T W r) :
    Translates T W m' root regions := by
  intro r hr x hx
  obtain ⟨v, hv, haddress, hphys⟩ := h.address_eq hr hx
  by_cases hpage : v ∈ lapicPage T
  · rw [hlapic.linear r hr v hv hpage] at haddress ⊢
    obtain rfl := hlapic.va_eq haddress
    obtain ⟨l, base, htranslate⟩ := (hmapped.mapped v hpage).translate hcodec hm' hl
    rw [Nat.add_sub_cancel' hpage.1] at htranslate
    exact ⟨v, _, haddress, htranslate⟩
  · have haway : ∀ y ∈ lapicPage T, ¬ v ≡ y [MOD 2 ^ T.ptValidBits] :=
      fun y hy hvy => hpage (hlapic.canonical r hr v hv y hy hvy ▸ hy)
    obtain ⟨l, pa, hsome, hrest⟩ := (hplaced r hr).mapped v hv
    have hkept := hmapped.kept haway hsome fun b hvb =>
      hlapic.not_alias h hr (hplaced r hr) (hblock r hr) hv hsome haway hvb
    obtain ⟨l', base, htranslate⟩ := MappedAt.translate hcodec hm' hl ⟨l, pa, hkept, hrest⟩
    obtain rfl := hphys
    exact ⟨v, _, haddress, htranslate⟩

omit hcodec in
theorem LapicMapped.not_translates (h : InWindows T W limit regions)
    (hlapic : LapicInWindow T W limit regions) (hm' : Holds T limit root m' t')
    (hplaced : ∀ r ∈ regions, Placed T limit t (request W r)) (hmapped : LapicMapped T limit t t')
    (hr : r ∈ regions) (hblock : HasLapicBlock T W r) : ¬ Translates T W m' root regions := by
  intro htranslates
  obtain ⟨x, hdiv, hbeside⟩ := hlapic.exists_beside
  have hx : FitsBlock T _ _ _ 2 x := hblock.congr hdiv.symm
  have hpage : lapicPhys ∈ lapicPage T := ⟨le_rfl, Nat.lt_add_of_pos_right T.pageSize_pos⟩
  have hlinear := hlapic.linear r hr _ (MapConfig.mem_stretch T hblock.le hblock.lt) hpage
  have hbase := h.base_eq hr
  rw [hlinear] at hbase
  have hbase := hlapic.va_eq hbase
  have hsize := regionSize_of_ne (r := r) (by rw [hlinear]; decide)
  have hmem : x ∈ points r := by
    have hle := hx.le
    have hlt := hx.lt
    exact ⟨show r.physicalStart ≤ x by omega, show x < r.physicalStart + r.sizeInBytes by omega⟩
  -- the entry of the page is the huge page, or one that is larger still
  obtain ⟨pte, l, hsome, hkl⟩ := (hplaced r hr).huge rfl (by decide) hlapic.level hlapic.block hblock
  have haway : ∀ y ∈ lapicPage T, ¬ x ≡ y [MOD 2 ^ T.ptValidBits] := fun y hy hxy =>
    hbeside (hlapic.canonical r hr x (MapConfig.mem_stretch T hx.le hx.lt) y hy hxy ▸ hy)
  have hnone := hm'.translate_none hl (hmapped.lost haway hsome rfl (T.div_eq_mono hkl hdiv))
  obtain ⟨v, pte', haddress, htranslate⟩ := htranslates r hr x hmem
  rw [hlinear] at haddress
  obtain rfl := hlapic.va_eq haddress
  rw [hnone] at htranslate
  simp at htranslate

end Translation

/-! ### Addresses of 48 bits -/

/-- The address is in the lower or in the upper half of an address space of 48 bits. -/
def Canonical (x : Nat) : Prop := x < 2 ^ 47 ∨ 2 ^ 64 - 2 ^ 47 ≤ x ∧ x < 2 ^ 64

instance (x : Nat) : Decidable (Canonical x) := inferInstanceAs (Decidable (_ ∨ _))

theorem Canonical.eq_of_modEq {x y : Nat} (hx : Canonical x) (hy : Canonical y) (h : x ≡ y [MOD 2 ^ 48]) :
    x = y := by
  unfold Canonical at hx hy
  unfold Nat.ModEq at h
  omega

def InHalf (T : TableMeta P) (W : Windows) (limit : Nat) (r : MemoryDescriptor) : Prop :=
  W.address (window r.memoryType) r.physicalStart = .ok (W.base r) ∧
    (r.memoryType = .kImage → r.sizeInBytes + imageAlign < usizeRange) ∧
    r.physicalStart + regionSize r + T.pageSize ≤ 2 ^ 63 ∧ r.physicalStart + regionSize r ≤ limit ∧
    (W.base r + regionSize r + T.pageSize ≤ 2 ^ 47 ∨
      2 ^ 64 - 2 ^ 47 ≤ W.base r ∧ W.base r + regionSize r + T.pageSize ≤ 2 ^ 64)

instance (r : MemoryDescriptor) : Decidable (InHalf T W limit r) := inferInstanceAs (Decidable (_ ∧ _))

theorem InHalf.canonical (h : InHalf T W limit r) {x : Nat} (hx : x ∈ span T W r) : Canonical x := by
  obtain ⟨-, -, -, -, hhalf⟩ := h
  have hstop := Nat.div_mul_le_self (W.base r + regionSize r + T.pageSize - 1) T.pageSize
  have hle : W.base r ≤ x := hx.1
  have hlt : x < (W.base r + regionSize r + T.pageSize - 1) / T.pageSize * T.pageSize := hx.2
  unfold Canonical
  omega

theorem Windows.kimageVa_add {p v i : Nat} (h : W.kimageVa p = .ok v) (hp : p + i < 2 ^ 63)
    (hv : v + i < 2 ^ 63 ∨ 2 ^ 63 ≤ v ∧ v + i < 2 ^ 64) : W.kimageVa (p + i) = .ok (v + i) := by
  have hbmod {n : Nat} (hn : n < 2 ^ 63) : (n : Int).bmod (2 ^ 64) = n :=
    Int.bmod_eq_of_le (by omega) (by omega)
  unfold Windows.kimageVa at h ⊢
  rw [hbmod (by omega)] at h
  rw [hbmod hp]
  simp only at h ⊢
  split_ifs at h with hdiff
  simp only [Except.ok.injEq] at h
  rw [if_pos (by omega)]
  congr 1
  omega

theorem Windows.address_add {w : Window} {p v i : Nat} (h : W.address w p = .ok v) (hp : p + i < 2 ^ 63)
    (hv : v + i < 2 ^ 63 ∨ 2 ^ 63 ≤ v ∧ v + i < 2 ^ 64) : W.address w (p + i) = .ok (v + i) := by
  have hadd {offset : Nat} (h : addUsize p offset = .ok v) : addUsize (p + i) offset = .ok (v + i) := by
    have hv' := (addUsize_eq_ok.mp h).2
    have hrange : v + i < usizeRange := show v + i < 2 ^ 64 by omega
    exact addUsize_eq_ok.mpr ⟨by omega, by omega⟩
  cases w with
  | linear => exact hadd h
  | percpu => exact hadd h
  | kimage =>
    rw [Windows.address] at h ⊢
    exact Windows.kimageVa_add h hp hv

theorem InWindows.of_halves (hbits : T.ptValidBits = 48) (h : ∀ r ∈ regions, InHalf T W limit r)
    (hdisjoint : ∀ r ∈ regions, ∀ r' ∈ regions, window r.memoryType ≠ window r'.memoryType →
      min ((request W r).stretch T).stop ((request W r').stretch T).stop ≤ max (W.base r) (W.base r')) :
    InWindows T W limit regions where
  shift r hr i hi := by
    obtain ⟨haddress, -, hphys, -, hhalf⟩ := h r hr
    have hsize := le_regionSize r
    have hpos := T.pageSize_pos
    exact Windows.address_add haddress (by omega) (by omega)
  rounds r hr := (h r hr).2.1
  virt r hr := by
    have hhalf := (h r hr).2.2.2.2
    show _ ≤ 2 ^ 64
    omega
  phys r hr := by
    have hphys := (h r hr).2.2.1
    show _ ≤ 2 ^ 64
    omega
  limit r hr := (h r hr).2.2.2.1
  canonical r hr r' hr' x hx y hy hxy := by
    rw [hbits] at hxy
    exact ((h r hr).canonical hx).eq_of_modEq ((h r' hr').canonical hy) hxy
  disjoint r hr r' hr' hne := Set.Ico_disjoint_Ico.mpr (hdisjoint r hr r' hr' hne)

/-- The windows of x86_64 for an image that is linked 2 GiB below the end of the address space. -/
def x86Kernel : Windows := { x86Windows with kimageOffset := 0x8000_0000 }

theorem LapicInWindow.of_halves (h : ∀ r ∈ regions, InHalf X86.generic x86Kernel limit r)
    (hupper : ∀ r ∈ regions, window r.memoryType ≠ .linear → 2 ^ 47 ≤ x86Kernel.base r)
    (hlimit : 2 ^ 32 ≤ limit) : LapicInWindow X86.generic x86Kernel limit regions where
  va := rfl
  io := rfl
  aligned := by decide
  below := by decide
  limit := le_trans (by decide) hlimit
  level := by decide
  block := by decide
  huge := by decide
  canonical r hr x hx y hy hxy := by
    have hlt : y < lapicPhys + X86.generic.pageSize := hy.2
    have hpage : lapicPhys + X86.generic.pageSize < 2 ^ 47 := by decide
    exact ((h r hr).canonical hx).eq_of_modEq (.inl (hlt.trans hpage)) hxy
  linear r hr x hx hpage := by
    by_contra hne
    have hle : x86Kernel.base r ≤ x := hx.1
    have hlt : lapicPhys + X86.generic.pageSize < 2 ^ 47 := by decide
    exact absurd hpage.2 (not_lt.mpr (hlt.le.trans ((hupper r hr hne).trans hle)))

/-! ### The table of the kernel -/

section Table

variable [PageTableEntry P] {A : FrameAllocator} {root : PhysAddr} {m₀ m m' : Machine P} {x86 : Bool}
  (hcodec : RoundTrips T limit) (hind : ValidIndependent P) (hA : A.Fresh T limit)
  (hl : T.Addressable T.ptLevel)

omit [PageTableEntry P] in
theorem InWindows.apart (h : InWindows T W limit regions) (hmap : Boot.BootMap T.pageSize regions)
    (haligned : ∀ r ∈ regions, Aligned T W r)
    (himages : regions.Pairwise fun a b => window a.memoryType = .kimage → window b.memoryType = .kimage →
      Disjoint (span T W a) (span T W b)) :
    (regions.map fun r => (request W r).stretch T).Pairwise (Stretch.Apart T) := by
  rw [List.pairwise_map]
  refine (hmap.laid.tiles.and himages).imp_of_mem fun {a b} ha hb hab => (h.apart_iff ha hb).mpr ?_
  obtain ⟨hpoints, himage⟩ := hab
  by_cases hwindow : window a.memoryType = window b.memoryType
  · by_cases hkimage : window a.memoryType = .kimage
    · exact himage hkimage (hwindow ▸ hkimage)
    · exact h.disjoint_of_points ha hb (haligned a ha) (haligned b hb) hwindow hkimage hpoints
  · exact h.disjoint a ha b hb hwindow

include hcodec hA

theorem InWindows.loop_new (h : InWindows T W limit regions) (hlog : m₀.log = [])
    (hnew : PageTableRef.new A m₀ = (.ok root, m))
    (hrun : regions.forM (mapRegion T A W root) m = (.ok (), m')) :
    (∀ r ∈ regions, Aligned T W r) ∧ (regions.Pairwise fun a b => Disjoint (span T W a) (span T W b)) ∧
      ∃ t, Holds T limit root m' t ∧ (∀ r ∈ regions, Placed T limit t (request W r)) ∧
        Dense T T.ptLevel t := by
  obtain ⟨-, hm⟩ := new_holds hcodec.keepsDirectories hA hlog hnew
  obtain ⟨haligned, t, ht, hbuilt⟩ :=
    h.loop_ok hcodec hA (List.Subset.refl _) hm (Built.fresh hcodec root) hrun
  rw [List.append_nil] at hbuilt
  have hapart := hbuilt.apart
  rw [List.map_reverse, List.pairwise_reverse, List.map_map, List.pairwise_map] at hapart
  refine ⟨haligned, hapart.imp_of_mem fun ha hb hab => ?_, t, ht, fun r hr => ?_, hbuilt.dense⟩
  · exact (h.apart_iff ha hb).mp hab.symm
  · exact hbuilt.placed _ (List.mem_reverse.mpr (List.mem_map_of_mem hr))

include hind hl

/-- `map_regions` on a map of the boot code, with enough frames, does not panic and leaves every byte
translated iff all descriptors are page-aligned and none is empty, the image is in no two descriptors that
share a page once they are rounded up, and, on x86_64, no descriptor has the huge page around the local
APIC. -/
theorem mapRegions_translates_iff (hlog : m₀.log = []) (hnew : PageTableRef.new A m₀ = (.ok root, m))
    (hmap : Boot.BootMap T.pageSize regions) (h : InWindows T W limit regions)
    (hlapic : x86 = true → LapicInWindow T W limit regions)
    (hframes : .refuse ∉ (mapRegions T A W root x86 regions m).2.log) :
    (∃ m', mapRegions T A W root x86 regions m = (.ok (), m') ∧ Translates T W m' root regions) ↔
      (∀ r ∈ regions, Aligned T W r) ∧
      (regions.Pairwise fun a b => window a.memoryType = .kimage → window b.memoryType = .kimage →
        Disjoint (span T W a) (span T W b)) ∧
      (x86 = true → ∀ r ∈ regions, ¬ HasLapicBlock T W r) := by
  constructor
  · rintro ⟨m', hrun, htranslates⟩
    obtain ⟨⟨⟩, m₁, hloop, hrest⟩ := Exec.bind_eq_ok.mp hrun
    obtain ⟨haligned, hdisjoint, t₁, hm₁, hplaced, hdense⟩ := h.loop_new hcodec hA hlog hnew hloop
    refine ⟨haligned, hdisjoint.imp fun hab _ _ => hab, fun hx86 r hr hblock => ?_⟩
    rw [if_pos hx86] at hrest
    rcases (hlapic hx86).mapLapic_cases hcodec hind hA hl hm₁ hdense with
      ⟨m₂, t₂, hok, hm₂, hmapped⟩ | ⟨m₂, hpanic, -⟩
    · obtain rfl := congrArg Prod.snd (hok.symm.trans hrest)
      exact hmapped.not_translates hl h (hlapic hx86) hm₂ hplaced hr hblock htranslates
    · rw [hpanic] at hrest
      simp at hrest
  · rintro ⟨haligned, himages, hblock⟩
    obtain ⟨-, hm⟩ := new_holds hcodec.keepsDirectories hA hlog hnew
    rcases h.loop_total hcodec hA hl (List.Subset.refl _) hm (Built.fresh hcodec root) haligned
      (h.apart hmap haligned himages) (fun _ _ _ hc => absurd hc List.not_mem_nil) with
      ⟨m₁, hloop⟩ | ⟨m₁, hpanic, hrefuse⟩
    · obtain ⟨-, -, t₁, hm₁, hplaced, hdense⟩ := h.loop_new hcodec hA hlog hnew hloop
      have hrun : mapRegions T A W root x86 regions m = (if x86 then mapLapic T A W root else pure ()) m₁ :=
        Exec.bind_apply_ok hloop
      rw [hrun] at hframes ⊢
      by_cases hx86 : x86 = true
      · rw [if_pos hx86] at hframes ⊢
        rcases (hlapic hx86).mapLapic_cases hcodec hind hA hl hm₁ hdense with
          ⟨m₂, t₂, hok, hm₂, hmapped⟩ | ⟨m₂, hpanic, hrefuse⟩
        · exact ⟨m₂, hok, hmapped.translates hcodec hl h (hlapic hx86) hm₂ hplaced (hblock hx86)⟩
        · rw [hpanic] at hframes
          exact absurd hrefuse hframes
      · rw [if_neg hx86]
        exact ⟨m₁, rfl, h.translates hcodec hl hm₁ hplaced⟩
    · have hrun : mapRegions T A W root x86 regions m = (.error .panic, m₁) :=
        Exec.bind_eq_error.mpr (.inl hpanic)
      rw [hrun] at hframes
      exact absurd hrefuse hframes

end Table

/-- The boot code on a board with 16 MiB of memory and one range under `/reserved-memory`. -/
def boardBoot (reserved : Reg) : VecRun MemoryDescriptor Unit := do
  initMemoryMap 0x1000 ⟨[[⟨0x20_0000, 0x100_0000⟩]], [], [some [reserved]]⟩
  addMemoryDescriptor ⟨0x20_0000, 0x20_0000, .kImage⟩
  reserveArchEarlyRanges 0x1000
  addMemoryDescriptor ⟨0x40_0000, 0x20_0000, .reserved⟩
  addMemoryDescriptor ⟨0x60_0000, 0x20_0000, .perCpuData⟩

theorem bootMap_boardBoot (reserved : Reg) {regions : List MemoryDescriptor}
    (hok : (boardBoot reserved []).1 = .ok ()) (hperm : regions.Perm (boardBoot reserved []).2) :
    BootMap X86.generic.pageSize regions := by
  obtain ⟨⟨⟩, m₁, hfdt, hrun⟩ := Exec.bind_eq_ok.mp (Prod.ext hok rfl : boardBoot reserved [] = (_, _))
  obtain ⟨⟨⟩, m₂, himage, hrun⟩ := Exec.bind_eq_ok.mp hrun
  obtain ⟨⟨⟩, m₃, harch, hrun⟩ := Exec.bind_eq_ok.mp hrun
  obtain ⟨⟨⟩, m₄, hram, hpercpu⟩ := Exec.bind_eq_ok.mp hrun
  have himage := BootMap.kimage (.fdt hfdt)
    (show kimageDescriptor 0x20_0000 0x3f_0000 = some _ by decide) himage
  have hram := BootMap.ram (.arch himage harch) (.inl rfl)
    (show usedDescriptor 0x1000 0x40_0000 0x60_0000 .reserved = some _ by decide) (by decide) hram
  have hpercpu := BootMap.ram hram (.inr rfl)
    (show usedDescriptor 0x1000 0x60_0000 0x80_0000 .perCpuData = some _ by decide) (by decide) hpercpu
  exact .sort hpercpu hperm

/-- The map if the range is a huge page. -/
def alignedMap : List MemoryDescriptor :=
  [⟨0x8000, 0x1000, .reserved⟩, ⟨0x20_0000, 0x20_0000, .kImage⟩, ⟨0x40_0000, 0x20_0000, .reserved⟩,
    ⟨0x60_0000, 0x20_0000, .perCpuData⟩, ⟨0x80_0000, 0x80_0000, .free⟩, ⟨0x100_0000, 0x20_0000, .reserved⟩]

theorem mapRegions_translates_aligned :
    ∃ m', mapRegions X86.generic X86.bump x86Kernel X86.root true alignedMap X86.start = (.ok (), m') ∧
      Translates X86.generic x86Kernel m' X86.root alignedMap := by
  have hhalf : ∀ r ∈ alignedMap, InHalf X86.generic x86Kernel (2 ^ 52) r := by decide
  have hmap : BootMap X86.generic.pageSize alignedMap :=
    bootMap_boardBoot ⟨0x100_0000, some 0x20_0000⟩ (by decide +kernel) (by decide +kernel)
  have haligned : ∀ r ∈ alignedMap, 0 < r.sizeInBytes ∧ X86.generic.pageSize ∣ r.physicalStart ∧
      X86.generic.pageSize ∣ x86Kernel.base r := by decide
  have himages : alignedMap.Pairwise fun a b =>
      ¬ (window a.memoryType = .kimage ∧ window b.memoryType = .kimage) := by decide
  have hlapic : ∀ r ∈ alignedMap,
      ¬ (x86Kernel.base r ≤ lapicPhys ∧ lapicPhys < x86Kernel.base r + regionSize r) := by decide
  refine (mapRegions_translates_iff X86.roundTrips X86.validIndependent X86.bump_fresh ?_
    (show X86.blank.log = [] from rfl) (Prod.ext (by decide) rfl) hmap (.of_halves rfl hhalf (by decide))
    (fun _ => .of_halves hhalf (by decide) (by decide)) (by decide +kernel)).mpr ⟨fun r hr => ?_, ?_, ?_⟩
  · exact ⟨by decide, by decide, by decide, by decide⟩
  · obtain ⟨hnonempty, hphys, hvirt⟩ := haligned r hr
    exact ⟨hnonempty, hphys, hvirt⟩
  · exact himages.imp fun hnot ha hb => absurd ⟨ha, hb⟩ hnot
  · exact fun _ r hr hblock => hlapic r hr ⟨hblock.le, hblock.lt⟩

/-- The map if the range begins in the middle of a page. -/
def unalignedMap : List MemoryDescriptor :=
  [⟨0x8000, 0x1000, .reserved⟩, ⟨0x20_0000, 0x20_0000, .kImage⟩, ⟨0x40_0000, 0x20_0000, .reserved⟩,
    ⟨0x60_0000, 0x20_0000, .perCpuData⟩, ⟨0x80_0000, 0x80_0100, .free⟩, ⟨0x100_0100, 0x100, .reserved⟩,
    ⟨0x100_0200, 0x1f_fe00, .free⟩]

theorem mapRegions_unaligned_panics :
    BootMap X86.generic.pageSize unalignedMap ∧ InWindows X86.generic x86Kernel (2 ^ 52) unalignedMap ∧
      LapicInWindow X86.generic x86Kernel (2 ^ 52) unalignedMap ∧
      .refuse ∉ (mapRegions X86.generic X86.bump x86Kernel X86.root true unalignedMap X86.start).2.log ∧
      (mapRegions X86.generic X86.bump x86Kernel X86.root true unalignedMap X86.start).1 = .error .panic := by
  have hhalf : ∀ r ∈ unalignedMap, InHalf X86.generic x86Kernel (2 ^ 52) r := by decide
  exact ⟨bootMap_boardBoot ⟨0x100_0100, some 0x100⟩ (by decide +kernel) (by decide +kernel),
    .of_halves rfl hhalf (by decide), .of_halves hhalf (by decide) (by decide), by decide +kernel,
    by decide +kernel⟩

end Sparreal.Kernel
