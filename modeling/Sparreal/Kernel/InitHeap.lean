import Sparreal.Ranges.MemoryMap

/-!
# The memory of the kernel heap

`init_heap` of `os/mem/mod.rs` goes through the memory map and gives the whole pages of every free region to
the allocator. It rounds the start of a region up and its end down, each on its own, and subtracts.
-/

namespace Sparreal.Kernel

open Ranges Paging

/-- Arithmetic of `usize` that does not stay in the type. -/
inductive ArithmeticPanic where
  | overflow
  | underflow
  deriving DecidableEq, Repr

variable {σ : Type}

/-- The body of the loop of `init_heap`. The allocator takes a region with `add`. -/
def addFreeRegion (pageSize : Nat) (va : Nat → Nat) (add : Range Nat → σ → σ)
    (region : MemoryDescriptor) : Exec ArithmeticPanic σ Unit :=
  if region.memoryType = .free then
    match Align.up region.physicalStart pageSize with
    | none => Exec.throw .overflow
    | some start =>
      if usizeMax < region.physicalStart + region.sizeInBytes then Exec.throw .overflow
      else
        let stop := Align.down (region.physicalStart + region.sizeInBytes) pageSize
        if stop < start then Exec.throw .underflow
        else
          let size := stop - start
          if size = 0 then pure ()
          else Exec.modify (add ⟨va start, va start + size⟩)
  else pure ()

def initHeap (pageSize : Nat) (va : Nat → Nat) (add : Range Nat → σ → σ)
    (regions : List MemoryDescriptor) : Exec ArithmeticPanic σ Unit :=
  regions.forM (addFreeRegion pageSize va add)

/-! ### Whole pages -/

def wholePages (pageSize : Nat) (d : MemoryDescriptor) : Set Nat :=
  {x | d.physicalStart ≤ x / pageSize * pageSize ∧
    x / pageSize * pageSize + pageSize ≤ d.physicalStart + d.sizeInBytes}

/-- The runs of pages the allocator is to get, in the order of the descriptors. -/
inductive Hands (pageSize : Nat) : List MemoryDescriptor → List (Range Nat) → Prop
  | nil : Hands pageSize [] []
  | skip {d : MemoryDescriptor} {ds : List MemoryDescriptor} {runs : List (Range Nat)} :
      d.memoryType ≠ .free ∨ wholePages pageSize d = ∅ → Hands pageSize ds runs →
      Hands pageSize (d :: ds) runs
  | run {d : MemoryDescriptor} {ds : List MemoryDescriptor} {r : Range Nat} {runs : List (Range Nat)} :
      d.memoryType = .free → r.Nonempty → r.points = wholePages pageSize d → Hands pageSize ds runs →
      Hands pageSize (d :: ds) (r :: runs)

/-- A descriptor `init_heap` gets through: a page boundary lies in it or at its end. -/
def HasBoundary (pageSize : Nat) (d : MemoryDescriptor) : Prop :=
  d.physicalStart + pageSize < 2 ^ 64 ∧
    ∃ b, pageSize ∣ b ∧ d.physicalStart ≤ b ∧ b ≤ d.physicalStart + d.sizeInBytes

theorem wholePages_eq {pageSize start : Nat} (hpage : Align.IsAlignment pageSize) {d : MemoryDescriptor}
    (hstop : d.physicalStart + d.sizeInBytes ≤ usizeMax)
    (hup : Align.up d.physicalStart pageSize = some start) :
    wholePages pageSize d =
      Set.Ico start (Align.down (d.physicalStart + d.sizeInBytes) pageSize) := by
  have hword : d.physicalStart + d.sizeInBytes < 2 ^ 64 := Nat.lt_of_le_pred (by decide) hstop
  ext x
  have hx : pageSize ∣ x / pageSize * pageSize := Nat.dvd_mul_left _ _
  show (d.physicalStart ≤ _ ∧ _ ≤ _) ↔ (start ≤ x ∧ x < _)
  rw [← Align.up_le_iff hpage hup hx, Align.le_block_iff hpage.pos (Align.dvd_up hpage hup),
    ← Align.le_down_iff hpage hword (Nat.dvd_add hx (dvd_refl pageSize)),
    Align.block_le_iff hpage.pos (Align.dvd_down hpage hword)]

/-! ### The loop -/

section Loop

variable {pageSize : Nat} (va : Nat → Nat) (add : Range Nat → σ → σ)

/-- The slice the allocator is given for a run of pages. -/
def slice (va : Nat → Nat) (r : Range Nat) : Range Nat := ⟨va r.start, va r.start + (r.stop - r.start)⟩

theorem addFreeRegion_cases (hpage : Align.IsAlignment pageSize) {d : MemoryDescriptor}
    (hstop : d.physicalStart + d.sizeInBytes ≤ usizeMax) (hfree : d.memoryType = .free) (s : σ) :
    (¬ HasBoundary pageSize d ∧ ∃ e, addFreeRegion pageSize va add d s = (.error e, s)) ∨
      HasBoundary pageSize d ∧
        ((wholePages pageSize d = ∅ ∧ addFreeRegion pageSize va add d s = (.ok (), s)) ∨
          ∃ r : Range Nat, r.Nonempty ∧ r.points = wholePages pageSize d ∧
            addFreeRegion pageSize va add d s = (.ok (), add (slice va r) s)) := by
  have hword : d.physicalStart + d.sizeInBytes < 2 ^ 64 := Nat.lt_of_le_pred (by decide) hstop
  rw [addFreeRegion, if_pos hfree]
  cases hup : Align.up d.physicalStart pageSize with
  | none => exact .inl ⟨fun h => Align.up_eq_none.mp hup h.1, .overflow, rfl⟩
  | some start =>
    have hpages := wholePages_eq hpage hstop hup
    have hroom := (Align.up_eq_some.mp hup).1
    dsimp only
    rw [if_neg hstop.not_gt]
    by_cases hinv : Align.down (d.physicalStart + d.sizeInBytes) pageSize < start
    · rw [if_pos hinv]
      refine .inl ⟨fun ⟨_, b, hb, hge, hle⟩ => ?_, .underflow, rfl⟩
      have hstart := (Align.up_le_iff hpage hup hb).mpr hge
      have hend := (Align.le_down_iff hpage hword hb).mpr hle
      omega
    rw [if_neg hinv]
    have hboundary : HasBoundary pageSize d :=
      ⟨hroom, start, Align.dvd_up hpage hup, Align.le_up hpage hup,
        (Nat.not_lt.mp hinv).trans (Align.down_le hpage hword)⟩
    refine .inr ⟨hboundary, ?_⟩
    by_cases hsize : Align.down (d.physicalStart + d.sizeInBytes) pageSize - start = 0
    · rw [if_pos hsize]
      exact .inl ⟨by rw [hpages, Set.Ico_eq_empty (by omega)], rfl⟩
    · rw [if_neg hsize]
      refine .inr ⟨⟨start, Align.down (d.physicalStart + d.sizeInBytes) pageSize⟩, ?_, hpages.symm, rfl⟩
      exact Nat.lt_of_sub_ne_zero hsize

theorem initHeap_cons (d : MemoryDescriptor) (ds : List MemoryDescriptor) :
    initHeap pageSize va add (d :: ds) =
      (addFreeRegion pageSize va add d >>= fun _ => initHeap pageSize va add ds) := rfl

theorem initHeap_hands (hpage : Align.IsAlignment pageSize) {ds : List MemoryDescriptor}
    (hds : ∀ d ∈ ds, d.physicalStart + d.sizeInBytes ≤ usizeMax)
    (hbound : ∀ d ∈ ds, d.memoryType = .free → HasBoundary pageSize d) (s : σ) :
    ∃ runs, Hands pageSize ds runs ∧
      initHeap pageSize va add ds s = (.ok (), runs.foldl (fun s r => add (slice va r) s) s) := by
  induction ds generalizing s with
  | nil => exact ⟨[], .nil, rfl⟩
  | cons d ds ih =>
    obtain ⟨hd, hds⟩ := List.forall_mem_cons.mp hds
    obtain ⟨hb, hbound⟩ := List.forall_mem_cons.mp hbound
    have hrest := ih hds hbound
    rw [initHeap_cons]
    by_cases hfree : d.memoryType = .free
    · rcases addFreeRegion_cases va add hpage hd hfree s with
        ⟨hnot, -⟩ | ⟨-, ⟨hnone, hok⟩ | ⟨r, hne, hpoints, hok⟩⟩
      · exact absurd (hb hfree) hnot
      · obtain ⟨runs, hruns, hrun⟩ := hrest s
        exact ⟨runs, .skip (.inr hnone) hruns, by rw [Exec.bind_apply_ok hok, hrun]⟩
      · obtain ⟨runs, hruns, hrun⟩ := hrest (add (slice va r) s)
        exact ⟨r :: runs, .run hfree hne hpoints hruns, by rw [Exec.bind_apply_ok hok, hrun]; rfl⟩
    · obtain ⟨runs, hruns, hrun⟩ := hrest s
      have hok : addFreeRegion pageSize va add d s = (.ok (), s) := by rw [addFreeRegion, if_neg hfree]; rfl
      exact ⟨runs, .skip (.inl hfree) hruns, by rw [Exec.bind_apply_ok hok, hrun]⟩

theorem hasBoundary_of_initHeap (hpage : Align.IsAlignment pageSize) {ds : List MemoryDescriptor}
    (hds : ∀ d ∈ ds, d.physicalStart + d.sizeInBytes ≤ usizeMax) {s s' : σ}
    (hok : initHeap pageSize va add ds s = (.ok (), s')) :
    ∀ d ∈ ds, d.memoryType = .free → HasBoundary pageSize d := by
  induction ds generalizing s with
  | nil => exact fun d hd => absurd hd List.not_mem_nil
  | cons d ds ih =>
    obtain ⟨hd, hds⟩ := List.forall_mem_cons.mp hds
    rw [initHeap_cons] at hok
    obtain ⟨⟨⟩, s₁, hstep, hok⟩ := Exec.bind_eq_ok.mp hok
    refine List.forall_mem_cons.mpr ⟨fun hfree => ?_, ih hds hok⟩
    rcases addFreeRegion_cases va add hpage hd hfree s with ⟨-, e, herr⟩ | ⟨hb, -⟩
    · exact absurd (herr.symm.trans hstep) (by simp)
    · exact hb

/-- `init_heap` gives the allocator, for every free descriptor, exactly the whole pages inside it, and gets
through without a panic, if and only if every free descriptor has a page boundary in it or at its end. -/
theorem initHeap_wholePages_iff (hpage : Align.IsAlignment pageSize) {ds : List MemoryDescriptor}
    (hds : ∀ d ∈ ds, d.physicalStart + d.sizeInBytes ≤ usizeMax) (s : σ) :
    (∃ runs, Hands pageSize ds runs ∧
      initHeap pageSize va add ds s = (.ok (), runs.foldl (fun s r => add (slice va r) s) s)) ↔
      ∀ d ∈ ds, d.memoryType = .free → HasBoundary pageSize d :=
  ⟨fun ⟨_, _, hok⟩ => hasBoundary_of_initHeap va add hpage hds hok,
    fun hbound => initHeap_hands va add hpage hds hbound s⟩

/-- A free region that begins and ends inside a page, around two whole pages. -/
theorem initHeap_wholePages_two :
    ∃ runs, Hands 0x1000 [⟨0x1800, 0x3000, .free⟩] runs ∧
      initHeap 0x1000 id (fun r regions => r :: regions) [⟨0x1800, 0x3000, .free⟩] [] =
        (.ok (), runs.foldl (fun s r => slice id r :: s) []) := by
  refine (initHeap_wholePages_iff id (fun r regions => r :: regions) ⟨12, by decide, rfl⟩ ?_ []).mpr ?_
  · simp [usizeMax]
  · intro d hd _
    rw [List.mem_singleton.mp hd]
    exact ⟨by decide, 0x2000, by decide, by decide, by decide⟩

/-- A free fragment inside one page: its start is rounded past its end. -/
theorem initHeap_underflow :
    initHeap 0x1000 id (fun r regions => r :: regions) [⟨0x1001, 0x10, .free⟩] [] =
      (.error .underflow, []) := by
  decide

end Loop

end Sparreal.Kernel
