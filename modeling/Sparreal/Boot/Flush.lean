import Sparreal.Ranges.Failure
import Sparreal.Boot.Ram

/-!
# Flushing early memory

`early_init` of `someboot/src/mem/mod.rs` gives the first large free descriptor of the memory map to the allocator.
`flush_to_memory_map` rounds the end of what has been handed out up to a page, which may be behind the end of that
descriptor if it does not end at a page; then the flushed descriptor leaves the range, and may conflict with what
follows. A flush inside the range never meets memory in use, since what has not been flushed is still free
(`Unspoilt.free`). It returns if the map has room and if no empty descriptor lies in the way, which the map may have
inside of free memory.
-/

namespace Sparreal.Boot

open Ranges VecOp Paging

def mb : Nat := 1024 * 1024

/-- The range that `early_init` gives to `ram::init`: that of the first free descriptor of more than 8 MiB. -/
def freeRange (map : List MemoryDescriptor) : Option (Range Nat) := do
  let desc ← map.find? fun d => decide (d.memoryType = .free) && decide (8 * mb < d.sizeInBytes)
  if usizeMax < desc.physicalStart + desc.sizeInBytes then none
  else return ⟨desc.physicalStart, desc.physicalStart + desc.sizeInBytes⟩

variable {map : List MemoryDescriptor}

theorem freeRange_eq_some {range : Range Nat} (h : freeRange map = some range) :
    ∃ d ∈ map, d.memoryType = .free ∧ range = ⟨d.physicalStart, d.physicalStart + d.sizeInBytes⟩ := by
  obtain ⟨d, hfind, hrest⟩ := Option.bind_eq_some_iff.mp h
  split_ifs at hrest
  obtain rfl := Option.some.inj hrest
  have hboth := List.find?_some hfind
  simp only [Bool.and_eq_true, decide_eq_true_eq] at hboth
  exact ⟨d, List.mem_of_find?_eq_some hfind, hboth.1, rfl⟩

namespace Early

def Contained (range : Range Nat) (d : MemoryDescriptor) : Prop :=
  range.start ≤ d.physicalStart ∧ d.physicalStart + d.sizeInBytes ≤ range.stop

def FlushesInside (pageSize : Nat) (range : Range Nat) (s : Early) (kind : MemoryType) : Prop :=
  ∃ s', s.step pageSize (.flushToMemoryMap kind) = some s' ∧ ∀ d ∈ s'.flushed, Contained range d

/-- What a flush would put into the map ends in the range, contains no empty descriptor of memory in use of another
type, and the map has room for it. -/
structure Fits (range : Range Nat) (map : List MemoryDescriptor) (desc : MemoryDescriptor) : Prop where
  stop_le : desc.physicalStart + desc.sizeInBytes ≤ range.stop
  empty : ∀ d ∈ map, d.sizeInBytes = 0 → desc.physicalStart < d.physicalStart →
    d.physicalStart < desc.physicalStart + desc.sizeInBytes →
    d.memoryType = .free ∨ d.memoryType = desc.memoryType
  room : HasRoom memoryMap desc map.length map

def FlushFits (pageSize : Nat) (range : Range Nat) (s : Early) (kind : MemoryType) : Prop :=
  ∃ stop, Align.up s.ram.current pageSize = some stop ∧
    (s.ram.start < stop → Fits range s.map ⟨s.ram.start, stop - s.ram.start, kind⟩)

/-! ### What is not flushed is free -/

/-- The flushed descriptors lie in the range, and the rest of the range is free. -/
structure Unspoilt (range : Range Nat) (s : Early) : Prop where
  handed : s.Handed range
  laid : Laid s.map
  contained : ∀ d ∈ s.flushed, Contained range d
  free : ∀ x, s.ram.start ≤ x → x < range.stop → Covers s.map .free x

variable {pageSize : Nat} {range : Range Nat} {s s' : Early} {c : Call}

theorem unspoilt_init (hmap : Laid map) (hrange : freeRange map = some range) : (init range map).Unspoilt range := by
  obtain ⟨d, hd, hfree, rfl⟩ := freeRange_eq_some hrange
  refine ⟨handed_init map, hmap, fun _ hd => absurd hd List.not_mem_nil, fun x hge hlt => ?_⟩
  exact ⟨d, hd, hfree, mem_points.mpr ⟨hge, hlt⟩⟩

theorem Unspoilt.not_blocks (hs : s.Unspoilt range) {desc : MemoryDescriptor}
    (hstart : desc.physicalStart = s.ram.start) (hpos : 0 < desc.sizeInBytes) (hfits : Fits range s.map desc) :
    ∀ d ∈ s.map, Ranges.blocks desc d = false := by
  intro d hd
  rw [Bool.eq_false_iff]
  intro hblocks
  obtain ⟨hover, hother⟩ := Bool.and_eq_true_iff.mp hblocks
  obtain ⟨hlt, hgt⟩ : desc.physicalStart < d.physicalStart + d.sizeInBytes ∧
    d.physicalStart < desc.physicalStart + desc.sizeInBytes := of_decide_eq_true hover
  have hused : ¬ (d.memoryType = .free ∨ d.memoryType = desc.memoryType) := by
    simpa [overwritable, mergeable, kind] using hother
  have hstop := hfits.stop_le
  rcases Nat.eq_zero_or_pos d.sizeInBytes with hzero | hpos'
  · exact hused (hfits.empty d hd hzero (by omega) hgt)
  · -- an address of the two is free and in use
    have hx : max desc.physicalStart d.physicalStart ∈ points d := by
      rw [mem_points]
      omega
    have hfree := hs.free (max desc.physicalStart d.physicalStart) (by omega) (by omega)
    exact hused (.inl (Tiling.label_of_covers hs.laid.tiles hd hx hfree))

theorem end_le_usizeMax {x align start stop : Nat} (ha : Align.IsAlignment align) (hup : Align.up x align = some stop)
    (hlt : start < stop) : start + (stop - start) ≤ usizeMax := by
  have hfits := (Align.up_eq_some.mp hup).1
  have hstop := Align.up_lt ha hup
  rw [Nat.add_sub_cancel' hlt.le]
  exact Nat.le_pred_of_lt (hstop.trans hfits)

theorem flush_of_unused {kind : MemoryType} {stop : Nat} (hup : Align.up s.ram.current pageSize = some stop)
    (hle : stop ≤ s.ram.start) : s.step pageSize (.flushToMemoryMap kind) = some s := by
  have hzero : stop - s.ram.start = 0 := Nat.sub_eq_zero_of_le hle
  simp [step, flushToMemoryMap, usedDescriptor, hup, hzero]

theorem flush_of_ok {kind : MemoryType} {stop : Nat} (hup : Align.up s.ram.current pageSize = some stop)
    (hlt : s.ram.start < stop)
    (hadd : addMemoryDescriptor ⟨s.ram.start, stop - s.ram.start, kind⟩ s.map = (.ok (), map)) :
    s.step pageSize (.flushToMemoryMap kind) = some { s with
      ram := { s.ram with start := stop, current := stop }
      map := map
      flushed := ⟨s.ram.start, stop - s.ram.start, kind⟩ :: s.flushed } := by
  have hne : stop - s.ram.start ≠ 0 := by omega
  simp [step, flushToMemoryMap, usedDescriptor, hup, hne, hadd, Nat.add_sub_cancel' hlt.le]

theorem Unspoilt.flush_iff (hpage : Align.IsAlignment pageSize) (hs : s.Unspoilt range) (kind : MemoryType) :
    FlushesInside pageSize range s kind ↔ FlushFits pageSize range s kind := by
  constructor
  · rintro ⟨s', hstep, hinside⟩
    cases takes_flush hstep with
    | refused hc | allocated hc => exact absurd rfl (hc kind)
    | @unused _ stop hup hle => exact ⟨stop, hup, fun hlt => absurd hle (Nat.not_le.mpr hlt)⟩
    | @flushed _ stop map hup hlt hadd =>
      refine ⟨stop, hup, fun _ => ?_⟩
      rw [addMemoryDescriptor_eq (end_le_usizeMax hpage hup hlt)] at hadd
      obtain ⟨hfree, hroom⟩ := (mergeAdd_ok_iff hs.laid.fits).mp ⟨map, hadd⟩
      refine ⟨(hinside _ List.mem_cons_self).2, fun d hd hzero hgt hlt => ?_, hroom⟩
      have hblocks := hfree d hd
      rw [Ranges.blocks, decide_eq_true ⟨by simpa [Ranges.range, hzero] using hgt, hlt⟩] at hblocks
      exact or_iff_not_imp_left.mpr (by simpa [overwritable, mergeable, Ranges.kind] using hblocks)
  · rintro ⟨stop, hup, hfits⟩
    rcases Nat.lt_or_ge s.ram.start stop with hlt | hle
    · have hfree := hs.not_blocks rfl (Nat.sub_pos_of_lt hlt) (hfits hlt)
      obtain ⟨map, hadd⟩ := (mergeAdd_ok_iff hs.laid.fits).mpr ⟨hfree, (hfits hlt).room⟩
      rw [← addMemoryDescriptor_eq (end_le_usizeMax hpage hup hlt)] at hadd
      refine ⟨_, flush_of_ok hup hlt hadd, List.forall_mem_cons.mpr ⟨⟨hs.handed.start_le, ?_⟩, hs.contained⟩⟩
      exact (hfits hlt).stop_le
    · exact ⟨s, flush_of_unused hup hle, hs.contained⟩

theorem Unspoilt.takes (hpage : Align.IsAlignment pageSize) (hs : s.Unspoilt range) (h : Takes pageSize s c s')
    (hfits : ∀ kind, c = .flushToMemoryMap kind → FlushFits pageSize range s kind) : s'.Unspoilt range := by
  have hhanded := hs.handed.takes hpage h
  cases h with
  | refused => exact hs
  | unused => exact hs
  | allocated => exact ⟨hhanded, hs.laid, hs.contained, hs.free⟩
  | @flushed kind stop map hup hlt hadd =>
    obtain ⟨stop', hup', hfits⟩ := hfits kind rfl
    obtain rfl := Option.some.inj (hup.symm.trans hup')
    refine ⟨hhanded, laid_addMemoryDescriptor _ hs.laid hadd,
      List.forall_mem_cons.mpr ⟨⟨hs.handed.start_le, (hfits hlt).stop_le⟩, hs.contained⟩, fun x hge hx => ?_⟩
    have hge' : stop ≤ x := hge
    rw [addMemoryDescriptor_eq (end_le_usizeMax hpage hup hlt)] at hadd
    refine ((added_of_ok hadd).covers .free x).mpr (.inl ⟨hs.free x (by omega) hx, fun hin => ?_⟩)
    have hin' := (mem_points.mp hin).2
    simp only at hin'
    omega

/-- Every flush of a run returns and stays inside the range that `early_init` has chosen exactly if at every flush
what is flushed fits. -/
theorem flushes_inside_iff {map : List MemoryDescriptor} (hpage : Align.IsAlignment pageSize) (hmap : Laid map)
    (hrange : freeRange map = some range) (calls : List Call) :
    (∀ before kind s, before ++ [.flushToMemoryMap kind] <+: calls →
      Machine.run (step pageSize) (init range map) before = some s → FlushesInside pageSize range s kind) ↔
    ∀ before kind s, before ++ [.flushToMemoryMap kind] <+: calls →
      Machine.run (step pageSize) (init range map) before = some s → FlushFits pageSize range s kind := by
  have hsplit : ∀ Q : Early → MemoryType → Prop,
      (∀ before kind s, before ++ [.flushToMemoryMap kind] <+: calls →
        Machine.run (step pageSize) (init range map) before = some s → Q s kind) ↔
      ∀ before c s, before ++ [c] <+: calls → Machine.run (step pageSize) (init range map) before = some s →
        ∀ kind, c = .flushToMemoryMap kind → Q s kind := by
    intro Q
    constructor
    · rintro h before c s hpre hrun kind rfl
      exact h before kind s hpre hrun
    · intro h before kind s hpre hrun
      exact h before _ s hpre hrun kind rfl
  rw [hsplit, hsplit]
  -- as long as the flushes have fitted, the rest of the range is free
  refine Machine.steps_iff (I := Unspoilt range) (fun hs => ?_) (fun hs hfits hstep => ?_) (unspoilt_init hmap hrange)
  · exact forall_congr' fun kind => imp_congr_right fun _ => hs.flush_iff hpage kind
  · exact hs.takes hpage (takes_of_step hpage hstep) hfits

/-- A frame from 16 MiB of free memory, flushed. -/
theorem flushes_inside_frame :
    freeRange [⟨0x100000, 0x1000000, .free⟩] = some ⟨0x100000, 0x1100000⟩ ∧
      ∀ before kind s, before ++ [.flushToMemoryMap kind] <+: [.allocFrame, .flushToMemoryMap .reserved] →
        Machine.run (step 0x1000) (init ⟨0x100000, 0x1100000⟩ [⟨0x100000, 0x1000000, .free⟩]) before = some s →
        FlushFits 0x1000 ⟨0x100000, 0x1100000⟩ s kind := by
  have hlaid : Laid [⟨0x100000, 0x1000000, .free⟩] := ⟨List.pairwise_singleton _ _, show 1 ≤ 128 by decide⟩
  have hrange : freeRange [⟨0x100000, 0x1000000, .free⟩] = some ⟨0x100000, 0x1100000⟩ := by decide
  refine ⟨hrange, (flushes_inside_iff ⟨12, by decide, rfl⟩ hlaid hrange _).mp ?_⟩
  intro before kind s hpre hrun
  obtain ⟨rfl, rfl⟩ : before = [.allocFrame] ∧ kind = .reserved := by
    match before, hpre with
    | [], hpre => simp at hpre
    | [c], hpre => simpa using hpre
    | c :: c' :: before, hpre => simp at hpre
  have hframe : Machine.run (step 0x1000) (init ⟨0x100000, 0x1100000⟩ [⟨0x100000, 0x1000000, .free⟩])
      [.allocFrame] = some ⟨⟨0x100000, 0x1100000, 0x101000⟩, [⟨0x100000, 0x1000000, .free⟩],
        [⟨0x100000, 0x1000, 0x1000⟩], []⟩ := by decide +kernel
  obtain rfl := Option.some.inj (hrun.symm.trans hframe)
  refine ⟨⟨⟨0x101000, 0x1100000, 0x101000⟩, [⟨0x101000, 0xfff000, .free⟩, ⟨0x100000, 0x1000, .reserved⟩],
    [⟨0x100000, 0x1000, 0x1000⟩], [⟨0x100000, 0x1000, .reserved⟩]⟩, by decide +kernel, ?_⟩
  simp [Contained]

/-- The free memory ends inside of a page and reserved memory follows. When its last page is handed out and flushed
as per-CPU data, the descriptor reaches into the reserved memory, which is a conflict, and the boot code panics. -/
theorem flush_conflicts :
    freeRange [⟨0, 0x900800, .free⟩, ⟨0x900800, 0x800, .reserved⟩] = some ⟨0, 0x900800⟩ ∧
      ∃ s, Machine.run (step 0x1000) (init ⟨0, 0x900800⟩ [⟨0, 0x900800, .free⟩, ⟨0x900800, 0x800, .reserved⟩])
          [.alloc ⟨0x900700, 1, 0, by decide, rfl⟩] = some s ∧
        s.ram.current = 0x900740 ∧
        addMemoryDescriptor ⟨0, 0x901000, .perCpuData⟩ s.map =
          (.error (.err (.conflict ⟨0, 0x901000, .perCpuData⟩ ⟨0x900800, 0x800, .reserved⟩)),
            [⟨0x900800, 0x800, .reserved⟩]) ∧
        s.step 0x1000 (.flushToMemoryMap .perCpuData) = none := by
  have hrun := Option.some_get (show (Machine.run (step 0x1000) (init ⟨0, 0x900800⟩
    [⟨0, 0x900800, .free⟩, ⟨0x900800, 0x800, .reserved⟩])
    [.alloc ⟨0x900700, 1, 0, by decide, rfl⟩]).isSome by decide +kernel)
  exact ⟨by decide, _, hrun.symm, by decide +kernel, by decide +kernel, Option.isNone_iff_eq_none.mp (by decide +kernel)⟩

end Early

end Sparreal.Boot
