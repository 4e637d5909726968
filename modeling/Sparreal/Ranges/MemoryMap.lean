import Sparreal.Ranges.Failure
import Sparreal.Ranges.Normal
import Sparreal.Paging.Def

/-!
# The memory map

`MEMORY_MAP` of `someboot/src/mem/mod.rs`, a `heapless::Vec` of 128 descriptors that the boot code fills
with `add_memory_descriptor`. Its callers go on after some of the errors, so what the map keeps has to
survive the calls that fail half-way too (`WellFormed.add`).
-/

namespace Sparreal.Ranges

open VecOp Paging

abbrev memoryMap : Container := .heapless 128

/-- `add_memory_descriptor`. `merge_add` begins with `item.range()`, an addition of `usize`. -/
def addMemoryDescriptor (desc : MemoryDescriptor) : VecRun MemoryDescriptor Unit :=
  if usizeMax < desc.physicalStart + desc.sizeInBytes then Exec.throw .panic
  else mergeAdd memoryMap desc

variable {desc : MemoryDescriptor}

theorem addMemoryDescriptor_eq (hstop : desc.physicalStart + desc.sizeInBytes ≤ usizeMax) :
    addMemoryDescriptor desc = mergeAdd memoryMap desc := if_neg hstop.not_gt

/-- A descriptor with an address in it and an end that is an address. -/
structure MemoryDescriptor.Valid (desc : MemoryDescriptor) : Prop where
  nonempty : 0 < desc.sizeInBytes
  stop_le : desc.physicalStart + desc.sizeInBytes ≤ usizeMax

/-- The maps that calls with valid descriptors make from the empty one, whatever the calls return. -/
inductive Produced : List MemoryDescriptor → Prop
  | empty : Produced []
  | add {m m' : List MemoryDescriptor} {desc : MemoryDescriptor}
      {r : Except (Fault MemoryDescriptor) Unit} :
      Produced m → desc.Valid → addMemoryDescriptor desc m = (r, m') → Produced m'

/-- What every map keeps. Its descriptors are valid, so the arithmetic of `usize` on them is exact. -/
structure WellFormed (m : List MemoryDescriptor) : Prop where
  tiled : Tiled m
  fits : memoryMap.Fits m.length
  valid : ∀ d ∈ m, d.Valid

variable {d : MemoryDescriptor} {m m' : List MemoryDescriptor}

theorem mem_points {x : Nat} :
    x ∈ points d ↔ d.physicalStart ≤ x ∧ x < d.physicalStart + d.sizeInBytes := Iff.rfl

theorem range_nonempty : (range d).Nonempty ↔ 0 < d.sizeInBytes :=
  Nat.lt_add_right_iff_pos

theorem valid_of_covers (hm : Tiled m) (hbelow : ∀ k x, Covers m k x → x < usizeMax) : ∀ d ∈ m, d.Valid := by
  intro d hd
  have hpos := range_nonempty.mp (hm.nonempty d hd)
  have hlast : d.physicalStart + d.sizeInBytes - 1 ∈ points d := by
    rw [mem_points]
    omega
  have hlt := hbelow d.memoryType _ ⟨d, hd, rfl, hlast⟩
  exact ⟨hpos, by omega⟩

theorem WellFormed.below (hm : WellFormed m) {k : MemoryType} {x : Nat} (hx : Covers m k x) : x < usizeMax := by
  obtain ⟨d, hd, -, hx⟩ := hx
  exact (mem_points.mp hx).2.trans_le (hm.valid d hd).stop_le

/-- A call keeps the map well formed, whether it returns `Ok` or `Err`. -/
theorem WellFormed.add {r : Except (Fault MemoryDescriptor) Unit} (hm : WellFormed m) (hdesc : desc.Valid)
    (hadd : addMemoryDescriptor desc m = (r, m')) : WellFormed m' := by
  have hitem := range_nonempty.mpr hdesc.nonempty
  rw [addMemoryDescriptor_eq hdesc.stop_le] at hadd
  rcases mergeAdd_returns memoryMap desc m with ⟨l, hok⟩ | ⟨e, l, herr⟩
  · obtain rfl : l = m' := congrArg Prod.snd (hok.symm.trans hadd)
    obtain ⟨htiled, hfits, -, hcovers⟩ := mergeAdd_spec hitem hm.tiled hok
    refine ⟨htiled, hfits, valid_of_covers htiled fun k x hx => ?_⟩
    rcases (hcovers k x).mp hx with ⟨hx, -⟩ | ⟨-, hx⟩
    · exact hm.below hx
    · exact (mem_points.mp hx).2.trans_le hdesc.stop_le
  · obtain rfl : l = m' := congrArg Prod.snd (herr.symm.trans hadd)
    obtain ⟨rfl, -⟩ := mergeAdd_eq_error hm.fits herr
    have htiled := tiled_remains hitem memoryMap m.length hm.tiled
    refine ⟨htiled, fits_remains desc [] rfl hm.fits, valid_of_covers htiled fun k x hx => ?_⟩
    exact hm.below (covers_of_remains hx)

theorem Produced.wellFormed (hm : Produced m) : WellFormed m := by
  induction hm with
  | empty => exact ⟨by decide, Nat.zero_le _, fun d hd => absurd hd List.not_mem_nil⟩
  | add _ hdesc hadd ih => exact ih.add hdesc hadd

/-- The invariant of the memory map: after any calls no descriptor is empty and no two share an address;
after a call that returns `Ok` no two of a type touch. -/
theorem memoryMap_invariant {m : List MemoryDescriptor} (hm : Produced m) :
    (∀ d ∈ m, 0 < d.sizeInBytes) ∧
      (m.Pairwise fun a b => Disjoint (points a) (points b)) ∧
      ∀ {desc m'}, desc.Valid → addMemoryDescriptor desc m = (.ok (), m') →
        m'.Pairwise fun a b => a.memoryType = b.memoryType →
          a.physicalStart + a.sizeInBytes < b.physicalStart ∨
            b.physicalStart + b.sizeInBytes < a.physicalStart := by
  have hform := hm.wellFormed
  refine ⟨fun d hd => (hform.valid d hd).nonempty, hform.tiled.tiles, fun hdesc hok => ?_⟩
  rw [addMemoryDescriptor_eq hdesc.stop_le] at hok
  obtain ⟨-, -, hpair, -⟩ := mergeAdd_spec (range_nonempty.mpr hdesc.nonempty) hform.tiled hok
  exact (pairwise_of_mergePair hpair).imp apart_of_adjoins

/-- Free memory with the kernel image carved out of it. -/
theorem memoryMap_invariant_carved :
    addMemoryDescriptor ⟨0x1000, 0x1000, .kImage⟩ [⟨0, 0x4000, .free⟩] =
        (.ok (), [⟨0, 0x1000, .free⟩, ⟨0x2000, 0x2000, .free⟩, ⟨0x1000, 0x1000, .kImage⟩]) ∧
      [(⟨0, 0x1000, .free⟩ : MemoryDescriptor), ⟨0x2000, 0x2000, .free⟩, ⟨0x1000, 0x1000, .kImage⟩].Pairwise
        fun a b => a.memoryType = b.memoryType →
          a.physicalStart + a.sizeInBytes < b.physicalStart ∨
            b.physicalStart + b.sizeInBytes < a.physicalStart := by
  have hfree : Produced [⟨0, 0x4000, .free⟩] :=
    .add (.empty) (show MemoryDescriptor.Valid ⟨0, 0x4000, .free⟩ from ⟨by decide, by decide⟩) rfl
  have hok : addMemoryDescriptor ⟨0x1000, 0x1000, .kImage⟩ [⟨0, 0x4000, .free⟩] =
      (.ok (), [⟨0, 0x1000, .free⟩, ⟨0x2000, 0x2000, .free⟩, ⟨0x1000, 0x1000, .kImage⟩]) := rfl
  exact ⟨hok, (memoryMap_invariant hfree).2.2 ⟨by decide, by decide⟩ hok⟩

/-! ### Descriptors that may be empty -/

theorem points_merged_descriptor {a b : MemoryDescriptor} (hab : adjoins a b = true) :
    points (merged a b) = points a ∪ points b := by
  obtain ⟨-, hba, hab⟩ := adjoins_iff.mp hab
  have hstart : (range a).start ≤ (range a).stop := Nat.le_add_right _ _
  have hle : min (range a).start (range b).start ≤ max (range a).stop (range b).stop :=
    (min_le_left _ _).trans (hstart.trans (le_max_left _ _))
  have hpoints : points (merged a b) =
      Set.Ico (min (range a).start (range b).start) (max (range a).stop (range b).stop) :=
    congrArg (Set.Ico _) (Nat.add_sub_cancel' hle)
  rw [hpoints]
  exact (Set.Ico_union_Ico' hba hab).symm

/-- The descriptors share no address and are in the map; some may be empty. -/
structure Laid (m : List MemoryDescriptor) : Prop where
  tiles : Tiling.Tiles points m
  fits : memoryMap.Fits m.length

theorem laid_addMemoryDescriptor (desc : MemoryDescriptor) : Exec.Keeps Laid (addMemoryDescriptor desc) := by
  intro m ⟨⟩ m' hm hok
  unfold addMemoryDescriptor at hok
  split_ifs at hok
  · simp at hok
  · have hround (l next : List MemoryDescriptor) (hl : Tiling.Tiles points l) (h : MergesTo l next) :
        Tiling.Tiles points next := by
      obtain ⟨a, b, rest, hab, hperm, hnext⟩ := h
      rw [Tiling.tiles_perm hperm] at hl
      exact (Tiling.tiles_perm hnext).mpr (Tiling.tiles_union (points_merged_descriptor hab) hl)
    obtain ⟨htiles, hfits, -⟩ :=
      mergeAdd_keeps hround hok (tiles_cut_append (Nat.le_add_right _ _) hm.tiles)
    exact ⟨htiles, hfits⟩

/-- An insertion that fails keeps them too. -/
theorem Laid.remains {e : RangeError MemoryDescriptor} (hm : Laid m)
    (herr : addMemoryDescriptor desc m = (.error (.err e), m')) : Laid m' := by
  unfold addMemoryDescriptor at herr
  split_ifs at herr
  · simp at herr
  · obtain ⟨rfl, -⟩ := mergeAdd_eq_error hm.fits herr
    exact ⟨tiles_remains (Nat.le_add_right _ _) memoryMap m.length hm.tiles, fits_remains desc [] rfl hm.fits⟩

/-- What an insertion that returns `Ok` does to a map that may have empty descriptors. -/
structure Added (desc : MemoryDescriptor) (m m' : List MemoryDescriptor) : Prop where
  fits : memoryMap.Fits m'.length
  kinds : ∀ d ∈ m', d.memoryType = desc.memoryType ∨ ∃ d₀ ∈ m, d.memoryType = d₀.memoryType
  covers : ∀ k x, Covers m' k x ↔
    (Covers m k x ∧ x ∉ points desc) ∨ (desc.memoryType = k ∧ x ∈ points desc)

theorem memoryType_of_mem_cut {desc p : MemoryDescriptor} (hp : p ∈ cut desc d) :
    p.memoryType = d.memoryType := by
  have hpiece {start stop : Nat} (hp : p ∈ piece d start stop) : p.memoryType = d.memoryType := by
    unfold piece at hp
    split_ifs at hp
    · rw [List.mem_singleton.mp hp]
      rfl
    · exact absurd hp List.not_mem_nil
  unfold cut at hp
  split_ifs at hp
  · exact (List.mem_append.mp hp).elim hpiece hpiece
  · rw [List.mem_singleton.mp hp]

theorem added_of_ok (hok : mergeAdd memoryMap desc m = (.ok (), m')) : Added desc m m' := by
  let kinds (l : List MemoryDescriptor) : Prop :=
    ∀ d ∈ l, d.memoryType = desc.memoryType ∨ ∃ d₀ ∈ m, d.memoryType = d₀.memoryType
  have hround (l next : List MemoryDescriptor)
      (hl : kinds l ∧ ∀ k x, Covers l k x ↔ Covers (m.flatMap (cut desc) ++ [desc]) k x)
      (h : MergesTo l next) :
      kinds next ∧ ∀ k x, Covers next k x ↔ Covers (m.flatMap (cut desc) ++ [desc]) k x := by
    obtain ⟨a, b, rest, hab, hperm, hnext⟩ := h
    constructor
    · intro d hd
      rcases List.mem_cons.mp (hnext.mem_iff.mp hd) with rfl | hd
      · exact hl.1 a (hperm.mem_iff.mpr List.mem_cons_self)
      · exact hl.1 d (hperm.mem_iff.mpr (List.mem_cons_of_mem a (List.mem_cons_of_mem b hd)))
    · intro k x
      rw [← hl.2 k x, Covers, Covers, Tiling.covers_perm hperm, Tiling.covers_perm hnext]
      exact Tiling.covers_union (points_merged_descriptor hab) rfl (adjoins_iff.mp hab).1
  have hcut : kinds (m.flatMap (cut desc) ++ [desc]) := by
    intro d hd
    rcases List.mem_append.mp hd with hd | hd
    · obtain ⟨d₀, hd₀, hd⟩ := List.mem_flatMap.mp hd
      exact .inr ⟨d₀, hd₀, memoryType_of_mem_cut hd⟩
    · exact .inl (by rw [List.mem_singleton.mp hd])
  obtain ⟨⟨hkinds, hcovers⟩, hfits, -⟩ := mergeAdd_keeps hround hok ⟨hcut, fun _ _ => Iff.rfl⟩
  exact ⟨hfits, hkinds, fun k x => (hcovers k x).trans (covers_cut_append desc m k x)⟩

theorem addMemoryDescriptor_cases (hstop : desc.physicalStart + desc.sizeInBytes ≤ usizeMax)
    (hfits : memoryMap.Fits m.length) (hkinds : ∀ d ∈ m, d.memoryType = .free ∨ d.memoryType = desc.memoryType) :
    (∃ m', addMemoryDescriptor desc m = (.error (.err .capacity), m')) ∨
      ∃ m', addMemoryDescriptor desc m = (.ok (), m') ∧ Added desc m m' := by
  rw [addMemoryDescriptor_eq hstop]
  rcases mergeAdd_returns memoryMap desc m with ⟨m', hok⟩ | ⟨e, m', herr⟩
  · exact .inr ⟨m', hok, added_of_ok hok⟩
  · obtain ⟨-, rfl | ⟨d, hd, hblock⟩⟩ := mergeAdd_eq_error hfits herr
    · exact .inl ⟨m', herr⟩
    · have hopen : (overwritable d desc || mergeable d desc) = true := by
        rw [Bool.or_eq_true]
        exact (hkinds d hd).imp (fun h => beq_iff_eq.mpr h) fun h => decide_eq_true h
      rw [blocks, hopen, Bool.not_true, Bool.and_false] at hblock
      exact absurd hblock Bool.false_ne_true

end Sparreal.Ranges
