import Sparreal.Lib.Machine
import Sparreal.Boot.Setup

/-!
# Early memory

The allocator of `someboot/src/mem/ram.rs` hands out a range from its start on. `flush_to_memory_map` puts the part
that has been handed out since the last flush into the memory map, up to the end of a page, and goes on after it.

The blocks are in order and each lies behind what was flushed before it (`Handed`), so they are disjoint, and a flush
covers every block there is (`blocks_recorded`). A call that overflows has no result.
-/

namespace Sparreal.Boot

open Ranges Paging

/-- The statics `RAM_START`, `RAM_END` and `RAM_CURRENT`. -/
structure Ram where
  start : Nat
  stop : Nat
  current : Nat
  deriving DecidableEq, Repr

namespace Ram

def init (range : Range Nat) : Ram := ⟨range.start, range.stop, max range.start 0x40⟩

/-- `ram::alloc`, for the size and the alignment of a layout. -/
def alloc (size align : Nat) (r : Ram) : Option (Option Nat × Ram) := do
  let start ← Align.up r.current align
  let stop := start + size
  if usizeMax < stop then none
  else if r.stop < stop then return (none, r)
  else return (some start, { r with current := stop })

def allocFrame (pageSize : Nat) (r : Ram) : Option (Option Nat × Ram) := r.alloc pageSize pageSize

end Ram

structure Layout where
  size : Nat
  align : Nat
  aligned : Align.IsAlignment align

/-- A block that was returned, with its layout. -/
structure RamBlock where
  start : Nat
  size : Nat
  align : Nat
  deriving DecidableEq, Repr

def RamBlock.points (b : RamBlock) : Set Nat := Set.Ico b.start (b.start + b.size)

/-- The allocator with the memory map, the blocks it has returned and the descriptors it has flushed, the last of
each first. -/
structure Early where
  ram : Ram
  map : List MemoryDescriptor
  blocks : List RamBlock
  flushed : List MemoryDescriptor
  deriving DecidableEq, Repr

namespace Early

/-- After `ram::init`. -/
def init (range : Range Nat) (map : List MemoryDescriptor) : Early := ⟨.init range, map, [], []⟩

/-- The allocator has answered a request. -/
def answer (s : Early) (size align : Nat) : Option Nat × Ram → Early
  | (none, ram) => { s with ram := ram }
  | (some start, ram) => { s with ram := ram, blocks := ⟨start, size, align⟩ :: s.blocks }

/-- `flush_to_memory_map`; `add_memory_descriptor` is unwrapped. -/
def flushToMemoryMap (pageSize : Nat) (kind : MemoryType) (s : Early) : Option Early := do
  let desc ← usedDescriptor pageSize s.ram.start s.ram.current kind
  if desc.sizeInBytes = 0 then return s
  match addMemoryDescriptor desc s.map with
  | (.error _, _) => none
  | (.ok (), map) =>
    let stop := desc.physicalStart + desc.sizeInBytes
    return { s with
      ram := { s.ram with start := stop, current := stop }, map := map, flushed := desc :: s.flushed }

inductive Call where
  | alloc (layout : Layout)
  | allocFrame
  | flushToMemoryMap (kind : MemoryType)

def step (pageSize : Nat) (s : Early) : Call → Option Early
  | .alloc layout => (s.ram.alloc layout.size layout.align).map (s.answer layout.size layout.align)
  | .allocFrame => (s.ram.allocFrame pageSize).map (s.answer pageSize pageSize)
  | .flushToMemoryMap kind => s.flushToMemoryMap pageSize kind

/-! ### One call -/

inductive Takes (pageSize : Nat) (s : Early) : Call → Early → Prop
  | refused {c : Call} : (∀ kind, c ≠ .flushToMemoryMap kind) → Takes pageSize s c s
  | allocated {c : Call} {start size align : Nat} : (∀ kind, c ≠ .flushToMemoryMap kind) →
      Align.IsAlignment align → Align.up s.ram.current align = some start → start + size ≤ s.ram.stop →
      Takes pageSize s c { s with
        ram := { s.ram with current := start + size }, blocks := ⟨start, size, align⟩ :: s.blocks }
  | unused {kind : MemoryType} {stop : Nat} : Align.up s.ram.current pageSize = some stop → stop ≤ s.ram.start →
      Takes pageSize s (.flushToMemoryMap kind) s
  | flushed {kind : MemoryType} {stop : Nat} {map : List MemoryDescriptor} :
      Align.up s.ram.current pageSize = some stop → s.ram.start < stop →
      addMemoryDescriptor ⟨s.ram.start, stop - s.ram.start, kind⟩ s.map = (.ok (), map) →
      Takes pageSize s (.flushToMemoryMap kind) { s with
        ram := { s.ram with start := stop, current := stop }
        map := map
        flushed := ⟨s.ram.start, stop - s.ram.start, kind⟩ :: s.flushed }

variable {pageSize : Nat} {s s' : Early} {c : Call}

theorem takes_alloc {size align : Nat} (hc : ∀ kind, c ≠ .flushToMemoryMap kind)
    (halign : Align.IsAlignment align) (h : (s.ram.alloc size align).map (s.answer size align) = some s') :
    Takes pageSize s c s' := by
  obtain ⟨⟨a, ram⟩, halloc, rfl⟩ := Option.map_eq_some_iff.mp h
  obtain ⟨start, hup, hrest⟩ := Option.bind_eq_some_iff.mp halloc
  dsimp only at hrest
  split_ifs at hrest with hmax hfull
  · obtain ⟨rfl, rfl⟩ := Prod.mk.inj (Option.some.inj hrest)
    exact .refused hc
  · obtain ⟨rfl, rfl⟩ := Prod.mk.inj (Option.some.inj hrest)
    exact .allocated hc halign hup (by omega)

theorem takes_flush {kind : MemoryType} (h : s.flushToMemoryMap pageSize kind = some s') :
    Takes pageSize s (.flushToMemoryMap kind) s' := by
  obtain ⟨desc, hdesc, hrest⟩ := Option.bind_eq_some_iff.mp h
  obtain ⟨stop, hup, rfl⟩ := Option.map_eq_some_iff.mp hdesc
  dsimp only at hrest
  split_ifs at hrest with hempty
  · obtain rfl := Option.some.inj hrest
    exact .unused hup (by omega)
  · have hlt : s.ram.start < stop := by omega
    split at hrest
    · cases hrest
    · next map hadd =>
      obtain rfl := Option.some.inj hrest
      rw [Nat.add_sub_cancel' hlt.le]
      exact .flushed hup hlt hadd

theorem takes_of_step (hpage : Align.IsAlignment pageSize) (h : s.step pageSize c = some s') :
    Takes pageSize s c s' := by
  cases c with
  | alloc layout => exact takes_alloc nofun layout.aligned h
  | allocFrame => exact takes_alloc nofun hpage h
  | flushToMemoryMap kind => exact takes_flush h

/-! ### The blocks -/

/-- The blocks lie between the start of the range and the current address, each behind the older ones, and what is
before the start of the unflushed part is flushed. -/
structure Handed (range : Range Nat) (s : Early) : Prop where
  start_le : range.start ≤ s.ram.start
  start_le_current : s.ram.start ≤ s.ram.current
  stop_eq : s.ram.stop = range.stop
  inside : ∀ b ∈ s.blocks, b.align ∣ b.start ∧ range.start ≤ b.start ∧ b.start + b.size ≤ range.stop
  le_current : ∀ b ∈ s.blocks, b.start + b.size ≤ s.ram.current
  ordered : s.blocks.Pairwise fun new old => old.start + old.size ≤ new.start
  recorded : ∀ b ∈ s.blocks, ∀ x ∈ b.points, s.ram.start ≤ x ∨ ∃ d ∈ s.flushed, x ∈ points d

/-- Every block is in the union of the flushed descriptors. -/
def Recorded (blocks : List RamBlock) (s : Early) : Prop :=
  ∀ b ∈ blocks, ∀ x ∈ b.points, ∃ d ∈ s.flushed, x ∈ points d

variable {range : Range Nat}

theorem handed_init (map : List MemoryDescriptor) : (init range map).Handed range where
  start_le := le_rfl
  start_le_current := le_max_left _ _
  stop_eq := rfl
  inside := fun _ hb => absurd hb List.not_mem_nil
  le_current := fun _ hb => absurd hb List.not_mem_nil
  ordered := .nil
  recorded := fun _ hb => absurd hb List.not_mem_nil

theorem Handed.takes (hpage : Align.IsAlignment pageSize) (hs : s.Handed range) (h : Takes pageSize s c s') :
    s'.Handed range := by
  cases h with
  | refused => exact hs
  | unused => exact hs
  | @allocated _ start size align _ halign hup hle =>
    have hcurrent : s.ram.current ≤ start := Align.le_up halign hup
    have hstart : s.ram.start ≤ start := hs.start_le_current.trans hcurrent
    refine ⟨hs.start_le, hstart.trans (Nat.le_add_right _ _), hs.stop_eq, ?_, ?_, ?_, ?_⟩
    · refine List.forall_mem_cons.mpr ⟨⟨Align.dvd_up halign hup, hs.start_le.trans hstart, ?_⟩, hs.inside⟩
      exact hs.stop_eq ▸ hle
    · refine List.forall_mem_cons.mpr ⟨le_rfl, fun b hb => ?_⟩
      exact (hs.le_current b hb).trans (hcurrent.trans (Nat.le_add_right _ _))
    · exact List.pairwise_cons.mpr ⟨fun b hb => (hs.le_current b hb).trans hcurrent, hs.ordered⟩
    · refine List.forall_mem_cons.mpr ⟨fun x hx => .inl (hstart.trans hx.1), hs.recorded⟩
  | @flushed kind stop map hup hlt =>
    have hcurrent : s.ram.current ≤ stop := Align.le_up hpage hup
    refine ⟨hs.start_le.trans hlt.le, le_rfl, hs.stop_eq, hs.inside, ?_, hs.ordered, ?_⟩
    · intro b hb
      exact (hs.le_current b hb).trans hcurrent
    · intro b hb x hx
      refine .inr ?_
      rcases hs.recorded b hb x hx with hge | ⟨d, hd, hxd⟩
      · refine ⟨_, List.mem_cons_self, mem_points.mpr ⟨hge, ?_⟩⟩
        have hxlt : x < b.start + b.size := hx.2
        have hble := hs.le_current b hb
        show x < s.ram.start + (stop - s.ram.start)
        omega
      · exact ⟨d, List.mem_cons_of_mem _ hd, hxd⟩

theorem Handed.recorded_of_flush (hpage : Align.IsAlignment pageSize) (hs : s.Handed range) {kind : MemoryType}
    (h : Takes pageSize s (.flushToMemoryMap kind) s') : Recorded s.blocks s' := by
  have hs' := hs.takes hpage h
  cases h with
  | refused hc | allocated hc => exact absurd rfl (hc kind)
  | unused hup hle =>
    intro b hb x hx
    rcases hs.recorded b hb x hx with hge | hrec
    · have hxlt : x < b.start + b.size := hx.2
      have hble := hs.le_current b hb
      have hcurrent := Align.le_up hpage hup
      omega
    · exact hrec
  | @flushed _ stop _ hup hlt =>
    intro b hb x hx
    rcases hs'.recorded b hb x hx with hge | hrec
    · have hxlt : x < b.start + b.size := hx.2
      have hble := hs.le_current b hb
      have hcurrent := Align.le_up hpage hup
      have hge' : stop ≤ x := hge
      omega
    · exact hrec

theorem Recorded.takes {blocks : List RamBlock} (hs : Recorded blocks s) (h : Takes pageSize s c s') :
    Recorded blocks s' := by
  cases h with
  | refused => exact hs
  | allocated => exact hs
  | unused => exact hs
  | flushed =>
    intro b hb x hx
    obtain ⟨d, hd, hxd⟩ := hs b hb x hx
    exact ⟨d, List.mem_cons_of_mem _ hd, hxd⟩

theorem handed_run (hpage : Align.IsAlignment pageSize) {map : List MemoryDescriptor} {calls : List Call}
    (hrun : Machine.run (step pageSize) (init range map) calls = some s) : s.Handed range :=
  Machine.run_keeps (fun hs h => hs.takes hpage (takes_of_step hpage h)) hrun (handed_init map)

/-- After any calls the blocks are aligned as requested, lie inside the range and are disjoint, and those that were
there at a flush are inside the union of the flushed descriptors. -/
theorem blocks_recorded (hpage : Align.IsAlignment pageSize) {map : List MemoryDescriptor} {calls : List Call}
    (hrun : Machine.run (step pageSize) (init range map) calls = some s) :
    (∀ b ∈ s.blocks, b.align ∣ b.start ∧ range.start ≤ b.start ∧ b.start + b.size ≤ range.stop) ∧
      (s.blocks.Pairwise fun b b' => Disjoint b.points b'.points) ∧
      ∀ before kind after s₁, calls = before ++ .flushToMemoryMap kind :: after →
        Machine.run (step pageSize) (init range map) before = some s₁ →
        ∀ b ∈ s₁.blocks, b.points ⊆ ⋃ d ∈ s.flushed, points d := by
  have hs := handed_run hpage hrun
  refine ⟨hs.inside, hs.ordered.imp fun {new old} hle => ?_, ?_⟩
  · rw [Set.disjoint_left]
    intro x hnew hold
    exact absurd (hle.trans hnew.1) (Nat.not_le.mpr hold.2)
  · intro before kind after s₁ hcalls hbefore b hb x hx
    rw [hcalls] at hrun
    obtain ⟨s₁', hbefore', hrest⟩ := Machine.run_append.mp hrun
    obtain rfl := Option.some.inj (hbefore.symm.trans hbefore')
    obtain ⟨s₂, hflush, hafter⟩ := Machine.run_cons.mp hrest
    have hrec := (handed_run hpage hbefore).recorded_of_flush hpage (takes_of_step hpage hflush)
    have hrec' := Machine.run_keeps (fun hs h => Recorded.takes hs (takes_of_step hpage h)) hafter hrec
    simpa using hrec' b hb x hx

/-- Eight bytes and a frame from 16 MiB of free memory, flushed, and another eight bytes. -/
theorem blocks_recorded_frame : ∃ s,
    Machine.run (step 0x1000) (init ⟨0x100000, 0x1100000⟩ [⟨0x100000, 0x1000000, .free⟩])
        [.alloc ⟨8, 8, 3, by decide, rfl⟩, .allocFrame, .flushToMemoryMap .reserved,
          .alloc ⟨8, 8, 3, by decide, rfl⟩] = some s ∧
      s.blocks = [⟨0x102000, 8, 8⟩, ⟨0x101000, 0x1000, 0x1000⟩, ⟨0x100000, 8, 8⟩] ∧
      s.flushed = [⟨0x100000, 0x2000, .reserved⟩] ∧
      s.blocks.Pairwise fun b b' => Disjoint b.points b'.points := by
  have hrun := Option.some_get (show (Machine.run (step 0x1000) (init ⟨0x100000, 0x1100000⟩
    [⟨0x100000, 0x1000000, .free⟩]) [.alloc ⟨8, 8, 3, by decide, rfl⟩, .allocFrame, .flushToMemoryMap .reserved,
      .alloc ⟨8, 8, 3, by decide, rfl⟩]).isSome by decide +kernel)
  have hpage : Align.IsAlignment 0x1000 := ⟨12, by decide, rfl⟩
  exact ⟨_, hrun.symm, by decide +kernel, by decide +kernel, (blocks_recorded hpage hrun.symm).2.1⟩

end Early

end Sparreal.Boot
