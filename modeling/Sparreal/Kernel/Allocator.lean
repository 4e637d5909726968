import Sparreal.Ranges.Def
import Mathlib.Algebra.Group.Nat.Defs
import Mathlib.Logic.Relation
import Mathlib.Order.Interval.Set.Basic

/-!
# The kernel heap

`KernelMemoryAllocator` of `os/mem/allocator.rs` keeps two buddy heaps, one for memory below 4 GiB. A region
goes to the low heap if its first and last byte have 32-bit physical addresses, a block is freed into the
low heap if its first byte does. The buddy heaps themselves are not modelled: a heap may answer a request
with any block inside one of its regions, or not at all.
-/

namespace Sparreal.Kernel

open Ranges (Range)

/-- `u32::MAX`. -/
abbrev u32Max : Nat := 2 ^ 32 - 1

inductive HeapId where
  | low
  | high
  deriving DecidableEq, Repr

section Model

-- The physical address of a virtual one.
variable (phys : Nat → Nat)

def addressRangeFitsIn32bit (start stop : Nat) : Bool :=
  if stop ≤ start then false
  else decide (phys start ≤ u32Max) && decide (phys (stop - 1) ≤ u32Max)

def pointerFitsIn32bit (ptr : Nat) : Bool := decide (phys ptr ≤ u32Max)

/-- The heap `add_memory_region` adds a region to. -/
def heapOfRegion (memory : Range Nat) : HeapId :=
  if addressRangeFitsIn32bit phys memory.start memory.stop then .low else .high

/-- The heap `GlobalAlloc::dealloc` frees a block into. -/
def dealloc (ptr : Nat) : HeapId := if pointerFitsIn32bit phys ptr then .low else .high

def deallocRaw (ptr : Nat) : HeapId := dealloc phys ptr

/-- The heap `dealloc_frame` frees a frame into. -/
def deallocFrame : HeapId := .low

end Model

abbrev Answer := HeapId → Option Nat

/-- `try_alloc`, with the heap that was asked. -/
def tryAlloc (answer : Answer) (heap : HeapId) : Option (Nat × HeapId) :=
  (answer heap).map (·, heap)

def alloc (answer : Answer) : Option (Nat × HeapId) :=
  (tryAlloc answer .high).or (tryAlloc answer .low)

def allocWithMask (dmaMask : Nat) (answer : Answer) : Option (Nat × HeapId) :=
  if dmaMask ≤ u32Max then tryAlloc answer .low
  else (tryAlloc answer .high).or (tryAlloc answer .low)

def allocFrame (answer : Answer) : Option (Nat × HeapId) := tryAlloc answer .low

/-! ### Histories -/

/-- The ways to get a block. -/
inductive Request where
  | global
  | masked (dmaMask : Nat)
  | frame
  deriving DecidableEq, Repr

def Request.alloc : Request → Answer → Option (Nat × HeapId)
  | .global => Kernel.alloc
  | .masked dmaMask => allocWithMask dmaMask
  | .frame => allocFrame

def Request.dealloc (phys : Nat → Nat) : Request → Nat → HeapId
  | .global => Kernel.dealloc phys
  | .masked _ => deallocRaw phys
  | .frame => fun _ => deallocFrame

structure Block where
  request : Request
  ptr : Nat
  size : Nat
  /-- The heap it came from. -/
  heap : HeapId
  deriving DecidableEq, Repr

/-- The regions of the heaps, the blocks in use, and the blocks freed with the heap each went to. -/
structure History where
  regions : HeapId → List (Range Nat)
  live : List Block
  freed : List (Block × HeapId)

def History.empty : History := ⟨fun _ => [], [], []⟩

def History.addMemoryRegion (phys : Nat → Nat) (memory : Range Nat) (s : History) : History :=
  { s with regions := fun heap =>
      if heap = heapOfRegion phys memory then memory :: s.regions heap else s.regions heap }

def Inside (regions : List (Range Nat)) (ptr size : Nat) : Prop :=
  ∃ r ∈ regions, r.start ≤ ptr ∧ ptr + size ≤ r.stop

/-- One call, with regions from a given list. A heap that answers does so with a block of its own. -/
inductive Step (phys : Nat → Nat) (memory : List (Range Nat)) : History → History → Prop
  | addMemoryRegion {s : History} {r : Range Nat} : r ∈ memory →
      Step phys memory s (s.addMemoryRegion phys r)
  | alloc {s : History} {request : Request} {size ptr : Nat} {heap : HeapId} {answer : Answer} :
      0 < size → (∀ h p, answer h = some p → Inside (s.regions h) p size) →
      request.alloc answer = some (ptr, heap) →
      Step phys memory s { s with live := ⟨request, ptr, size, heap⟩ :: s.live }
  | dealloc {s : History} {b : Block} : b ∈ s.live →
      Step phys memory s { s with
        live := s.live.erase b
        freed := (b, b.request.dealloc phys b.ptr) :: s.freed }

def Reachable (phys : Nat → Nat) (memory : List (Range Nat)) : History → Prop :=
  Relation.ReflTransGen (Step phys memory) History.empty

/-! ### The three criteria -/

/-- The region is mapped linearly. -/
def Contiguous (phys : Nat → Nat) (r : Range Nat) : Prop :=
  ∀ v, r.start ≤ v → v < r.stop → phys v = phys r.start + (v - r.start)

/-- The region begins below 4 GiB and ends above. -/
def Straddles (phys : Nat → Nat) (r : Range Nat) : Prop :=
  r.start < r.stop ∧ phys r.start ≤ u32Max ∧ u32Max < phys (r.stop - 1)

theorem alloc_eq_some {request : Request} {answer : Answer} {ptr : Nat} {heap : HeapId}
    (h : request.alloc answer = some (ptr, heap)) :
    answer heap = some ptr ∧ (request = .frame → heap = .low) := by
  have htry {asked : HeapId} (h : tryAlloc answer asked = some (ptr, heap)) :
      answer heap = some ptr ∧ heap = asked := by
    obtain ⟨p, hp, heq⟩ := Option.map_eq_some_iff.mp h
    obtain ⟨rfl, rfl⟩ : p = ptr ∧ asked = heap := by simpa using heq
    exact ⟨hp, rfl⟩
  have hor (h : (tryAlloc answer .high).or (tryAlloc answer .low) = some (ptr, heap)) :
      answer heap = some ptr := by
    rcases Option.or_eq_some_iff.mp h with h | ⟨-, h⟩
    · exact (htry h).1
    · exact (htry h).1
  cases request with
  | global => exact ⟨hor h, nofun⟩
  | masked dmaMask =>
    refine ⟨?_, nofun⟩
    by_cases hmask : dmaMask ≤ u32Max
    · exact (htry ((if_pos hmask).symm.trans h)).1
    · exact hor ((if_neg hmask).symm.trans h)
  | frame => exact ⟨(htry h).1, fun _ => (htry h).2⟩

variable {phys : Nat → Nat}

theorem dealloc_eq_heapOfRegion {r : Range Nat} (hr : Contiguous phys r) (hstraddle : ¬ Straddles phys r) {ptr : Nat}
    (hge : r.start ≤ ptr) (hlt : ptr < r.stop) : dealloc phys ptr = heapOfRegion phys r := by
  have hptr := hr ptr hge hlt
  have hlast := hr (r.stop - 1) (by omega) (by omega)
  have hne : ¬ r.stop ≤ r.start := by omega
  unfold Straddles at hstraddle
  unfold dealloc heapOfRegion pointerFitsIn32bit addressRangeFitsIn32bit
  rw [if_neg hne]
  by_cases hlow : phys r.start ≤ u32Max
  · have hlast' : phys (r.stop - 1) ≤ u32Max := by
      by_contra h
      exact hstraddle ⟨by omega, hlow, Nat.lt_of_not_le h⟩
    have hin : phys ptr ≤ u32Max := by
      rw [hptr]
      refine le_trans ?_ (hlast ▸ hlast')
      omega
    simp only [hin, hlow, hlast', decide_true, Bool.and_self, ↓reduceIte]
  · have hin : ¬ phys ptr ≤ u32Max := by
      rw [hptr]
      exact fun h => hlow (le_trans (Nat.le_add_right _ _) h)
    simp only [hin, hlow, decide_false, Bool.false_and, Bool.false_eq_true, ↓reduceIte]

variable {memory : List (Range Nat)}

theorem regions_step {s s' : History} (hs : ∀ heap, ∀ r ∈ s.regions heap, r ∈ memory ∧ heapOfRegion phys r = heap)
    (hstep : Step phys memory s s') : ∀ heap, ∀ r ∈ s'.regions heap, r ∈ memory ∧ heapOfRegion phys r = heap := by
  cases hstep with
  | @addMemoryRegion r hr =>
    intro heap q hq
    simp only [History.addMemoryRegion] at hq
    split_ifs at hq with hheap
    · rcases List.mem_cons.mp hq with rfl | hq
      · exact ⟨hr, hheap.symm⟩
      · exact hs heap q hq
    · exact hs heap q hq
  | alloc => exact hs
  | dealloc => exact hs

theorem Reachable.regions {s : History} (hs : Reachable phys memory s) :
    ∀ heap, ∀ r ∈ s.regions heap, r ∈ memory ∧ heapOfRegion phys r = heap := by
  induction hs with
  | refl => exact fun _ r hr => absurd hr List.not_mem_nil
  | tail _ hstep ih => exact regions_step ih hstep

/-- What every history keeps when no region straddles 4 GiB. -/
structure Sound (phys : Nat → Nat) (memory : List (Range Nat)) (s : History) : Prop where
  regions : ∀ heap, ∀ r ∈ s.regions heap, r ∈ memory ∧ heapOfRegion phys r = heap
  live : ∀ b ∈ s.live, b.request.dealloc phys b.ptr = b.heap
  freed : ∀ e ∈ s.freed, e.2 = e.1.heap

theorem Sound.step (hmem : ∀ r ∈ memory, Contiguous phys r ∧ ¬ Straddles phys r) {s s' : History}
    (hs : Sound phys memory s) (hstep : Step phys memory s s') : Sound phys memory s' := by
  cases hstep with
  | addMemoryRegion hr => exact ⟨regions_step hs.regions (.addMemoryRegion hr), hs.live, hs.freed⟩
  | @alloc request size ptr heap answer hsize hanswer halloc =>
    refine ⟨hs.regions, fun b hb => ?_, hs.freed⟩
    rcases List.mem_cons.mp hb with rfl | hb
    · obtain ⟨hptr, hframe⟩ := alloc_eq_some halloc
      obtain ⟨r, hr, hge, hle⟩ := hanswer heap ptr hptr
      obtain ⟨hr, hheap⟩ := hs.regions heap r hr
      have hfree := dealloc_eq_heapOfRegion (hmem r hr).1 (hmem r hr).2 hge (by omega)
      rw [hheap] at hfree
      cases request with
      | global => exact hfree
      | masked dmaMask => exact hfree
      | frame => exact (hframe rfl).symm
    · exact hs.live b hb
  | @dealloc b hb =>
    refine ⟨hs.regions, fun c hc => hs.live c (List.mem_of_mem_erase hc), fun e he => ?_⟩
    rcases List.mem_cons.mp he with rfl | he
    · exact hs.live b hb
    · exact hs.freed e he

theorem Reachable.sound (hmem : ∀ r ∈ memory, Contiguous phys r ∧ ¬ Straddles phys r) {s : History}
    (hs : Reachable phys memory s) : Sound phys memory s := by
  induction hs with
  | refl =>
    exact ⟨fun _ r hr => absurd hr List.not_mem_nil, fun b hb => absurd hb List.not_mem_nil,
      fun e he => absurd he List.not_mem_nil⟩
  | tail _ hstep ih => exact ih.step hmem hstep

/-- A block at the start of a region that straddles 4 GiB comes from the high heap and is freed into the low
one. -/
theorem reachable_of_straddles {r : Range Nat} (hr : r ∈ memory) (hstraddle : Straddles phys r) {size : Nat}
    (hsize : 0 < size) (hfits : r.start + size ≤ r.stop) :
    ∃ s, Reachable phys memory s ∧ (⟨.global, r.start, size, .high⟩, .low) ∈ s.freed := by
  obtain ⟨hlt, hlow, hhigh⟩ := hstraddle
  have hheap : heapOfRegion phys r = .high := by
    rw [heapOfRegion, addressRangeFitsIn32bit, if_neg hlt.not_ge, decide_eq_false hhigh.not_ge]
    simp
  let block : Block := ⟨.global, r.start, size, .high⟩
  let answer : Answer := fun heap => if heap = .high then some r.start else none
  let s₁ : History := History.empty.addMemoryRegion phys r
  let s₂ : History := { s₁ with live := [block] }
  have hregion : Step phys memory History.empty s₁ := .addMemoryRegion hr
  have hanswer : ∀ h p, answer h = some p → Inside (s₁.regions h) p size := by
    intro h p hp
    obtain ⟨rfl, rfl⟩ : h = .high ∧ r.start = p := by simpa [answer] using hp
    exact ⟨r, by simp [s₁, History.addMemoryRegion, hheap], le_refl _, hfits⟩
  have halloc : Step phys memory s₁ s₂ :=
    .alloc hsize hanswer (show Request.global.alloc answer = some (r.start, .high) from rfl)
  have hlive : block ∈ s₂.live := List.mem_singleton_self block
  refine ⟨_, ((Relation.ReflTransGen.single hregion).tail halloc).tail (.dealloc hlive), ?_⟩
  have hdealloc : dealloc phys r.start = .low := by
    rw [dealloc, pointerFitsIn32bit, decide_eq_true hlow, if_pos rfl]
  show (_, _) ∈ (block, dealloc phys r.start) :: _
  rw [hdealloc]
  exact List.mem_cons_self

/-- Over every history each block is freed into the heap that allocated it, exactly if no region straddles
4 GiB. -/
theorem freed_into_origin_iff {phys : Nat → Nat} {memory : List (Range Nat)}
    (hmem : ∀ r ∈ memory, Contiguous phys r) :
    (∀ s, Reachable phys memory s → ∀ e ∈ s.freed, e.2 = e.1.heap) ↔
      ∀ r ∈ memory, ¬ Straddles phys r := by
  constructor
  · intro hall r hr hstraddle
    obtain ⟨s, hs, hfreed⟩ := reachable_of_straddles hr hstraddle Nat.one_pos hstraddle.1
    exact absurd (hall s hs _ hfreed) (by simp)
  · intro hnone s hs
    exact (hs.sound fun r hr => ⟨hmem r hr, hnone r hr⟩).freed

/-- Memory on both sides of 4 GiB, in two regions. -/
theorem freed_into_origin_two_regions :
    (∀ r ∈ [⟨0x1000, 0x100000000⟩, ⟨0x100000000, 0x200000000⟩], ¬ Straddles id r) ∧
      ∀ s, Reachable id [⟨0x1000, 0x100000000⟩, ⟨0x100000000, 0x200000000⟩] s →
        ∀ e ∈ s.freed, e.2 = e.1.heap := by
  have hnone : ∀ r ∈ [⟨0x1000, 0x100000000⟩, ⟨0x100000000, 0x200000000⟩], ¬ Straddles id r := by
    intro r hr
    simp only [List.mem_cons, List.not_mem_nil, or_false] at hr
    rcases hr with rfl | rfl
    · exact fun h => absurd h.2.2 (by decide)
    · exact fun h => absurd h.2.1 (by decide)
  exact ⟨hnone, (freed_into_origin_iff fun r _ v hge _ => (Nat.add_sub_cancel' hge).symm).mpr hnone⟩

/-- The last page below 4 GiB, in a region that goes on above. -/
theorem freed_into_other_heap :
    ∃ s, Reachable id [⟨0xfffff000, 0x100001000⟩] s ∧
      (⟨.global, 0xfffff000, 0x1000, .high⟩, .low) ∈ s.freed :=
  reachable_of_straddles (List.mem_singleton_self _) ⟨by decide, by decide, by decide⟩ (by decide)
    (by decide)

end Sparreal.Kernel
