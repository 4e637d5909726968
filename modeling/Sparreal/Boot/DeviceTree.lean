import Sparreal.Ranges.MemoryMap

/-!
# The memory map from the device tree

`init_memory_map` of `someboot/src/fdt/memory.rs` adds the memory regions of the device tree as free, then
its memory reservations, rounded to pages, and then the nodes under `/reserved-memory` as reserved. Every
insertion is unwrapped, so a fault of the run is a panic of the boot code.

A run of such insertions is described by the addresses it adds (`Adds`); the description of the loops
follows from that of one insertion.
-/

namespace Sparreal.Boot

open Ranges Paging

/-- A range of the device tree: a memory region or a memory reservation. -/
structure Region where
  address : Nat
  size : Nat
  deriving DecidableEq, Repr

/-- An entry of a `reg` property; the size is absent under a parent with no size cells. -/
structure Reg where
  address : Nat
  size : Option Nat
  deriving DecidableEq, Repr

/-- What `init_memory_map` reads of the device tree. -/
structure Fdt where
  /-- The regions of the memory nodes. -/
  memory : List (List Region)
  memoryReservations : List Region
  /-- The `reg` properties of the nodes under `/reserved-memory`. -/
  reservedMemory : List (Option (List Reg))

/-! ### The model -/

def addRegion (region : Region) : VecRun MemoryDescriptor Unit :=
  if region.size = 0 then pure ()
  else addMemoryDescriptor ⟨region.address, region.size, .free⟩

def addReservation (pageSize : Nat) (reserved : Region) : VecRun MemoryDescriptor Unit :=
  match MemoryDescriptor.newAligned reserved.address reserved.size .reserved pageSize with
  | none => Exec.throw .panic
  | some desc => addMemoryDescriptor desc

/-- The body of the loop over the nodes under `/reserved-memory`: `itr.next()` is the first entry. -/
def addReserved (reg : Option (List Reg)) : VecRun MemoryDescriptor Unit :=
  match reg with
  | some (⟨address, some size⟩ :: _) =>
    if 0 < size then addMemoryDescriptor ⟨address, size, .reserved⟩ else pure ()
  | _ => pure ()

/-- `init_memory_map`, for a device tree that is there. -/
def initMemoryMap (pageSize : Nat) (fdt : Fdt) : VecRun MemoryDescriptor Unit := do
  fdt.memory.forM fun memory => memory.forM addRegion
  fdt.memoryReservations.forM (addReservation pageSize)
  fdt.reservedMemory.forM addReserved

/-! ### Runs of insertions -/

def OnlyFreeAnd (type : MemoryType) (m : List MemoryDescriptor) : Prop :=
  ∀ d ∈ m, d.memoryType = .free ∨ d.memoryType = type

/-- The run gives the addresses of `S` a type, unless the map gets full; it panics if an address it computes
is not in range. -/
def Adds (type : MemoryType) (inRange : Prop) (S : Set Nat) (run : VecRun MemoryDescriptor Unit) : Prop :=
  ∀ m, memoryMap.Fits m.length → OnlyFreeAnd type m →
    (∃ m', run m = (.error (.err .capacity), m')) ∨ (¬ inRange ∧ ∃ m', run m = (.error .panic, m')) ∨
      inRange ∧ ∃ m', run m = (.ok (), m') ∧ memoryMap.Fits m'.length ∧ OnlyFreeAnd type m' ∧
        ∀ k x, Covers m' k x ↔ (Covers m k x ∧ x ∉ S) ∨ (type = k ∧ x ∈ S)

section Rules

variable {type : MemoryType}

theorem adds_pure : Adds type True ∅ (pure ()) := by
  refine fun m hfits hkinds => .inr (.inr ⟨trivial, m, rfl, hfits, hkinds, fun k x => ?_⟩)
  simp

theorem adds_panic {inRange : Prop} (hrange : ¬ inRange) (S : Set Nat) :
    Adds type inRange S (Exec.throw .panic) :=
  fun m _ _ => .inr (.inl ⟨hrange, m, rfl⟩)

theorem adds_descriptor (address size : Nat) :
    Adds type (address + size ≤ usizeMax) (Set.Ico address (address + size))
      (addMemoryDescriptor ⟨address, size, type⟩) := by
  intro m hfits hkinds
  by_cases hstop : address + size ≤ usizeMax
  · have hdesc : (⟨address, size, type⟩ : MemoryDescriptor).physicalStart + size ≤ usizeMax := hstop
    rcases addMemoryDescriptor_cases hdesc hfits hkinds with hfull | ⟨m', hok, hadded⟩
    · exact .inl hfull
    · refine .inr (.inr ⟨hstop, m', hok, hadded.fits, fun d hd => ?_, hadded.covers⟩)
      rcases hadded.kinds d hd with htype | ⟨d₀, hd₀, htype⟩
      · exact .inr htype
      · exact (hkinds d₀ hd₀).imp htype.trans htype.trans
  · exact .inr (.inl ⟨hstop, m, by rw [addMemoryDescriptor, if_pos (Nat.lt_of_not_le hstop)]; rfl⟩)

theorem Adds.congr {inRange inRange' : Prop} {S S' : Set Nat} {run : VecRun MemoryDescriptor Unit}
    (h : Adds type inRange S run) (hrange : inRange ↔ inRange') (hS : S = S') : Adds type inRange' S' run := by
  obtain rfl := propext hrange
  exact hS ▸ h

theorem Adds.bind {inRange₁ inRange₂ : Prop} {S₁ S₂ : Set Nat} {run₁ : VecRun MemoryDescriptor Unit}
    {run₂ : Unit → VecRun MemoryDescriptor Unit} (h₁ : Adds type inRange₁ S₁ run₁)
    (h₂ : Adds type inRange₂ S₂ (run₂ ())) :
    Adds type (inRange₁ ∧ inRange₂) (S₁ ∪ S₂) (run₁ >>= run₂) := by
  intro m hfits hkinds
  rcases h₁ m hfits hkinds with ⟨m₁, hrun⟩ | ⟨hnot, m₁, hrun⟩ | ⟨hrange, m₁, hrun, hfits₁, hkinds₁, hcovers₁⟩
  · exact .inl ⟨m₁, Exec.bind_eq_error.mpr (.inl hrun)⟩
  · exact .inr (.inl ⟨fun h => hnot h.1, m₁, Exec.bind_eq_error.mpr (.inl hrun)⟩)
  rw [Exec.bind_apply_ok hrun]
  rcases h₂ m₁ hfits₁ hkinds₁ with hrun₂ | ⟨hnot, hrun₂⟩ | ⟨hrange₂, m₂, hrun₂, hfits₂, hkinds₂, hcovers₂⟩
  · exact .inl hrun₂
  · exact .inr (.inl ⟨fun h => hnot h.2, hrun₂⟩)
  · refine .inr (.inr ⟨⟨hrange, hrange₂⟩, m₂, hrun₂, hfits₂, hkinds₂, fun k x => ?_⟩)
    rw [hcovers₂, hcovers₁, Set.mem_union]
    tauto

theorem adds_forM {α : Type} {inRange : α → Prop} {S : α → Set Nat}
    {run : α → VecRun MemoryDescriptor Unit} (l : List α)
    (h : ∀ a, Adds type (inRange a) (S a) (run a)) :
    Adds type (∀ a ∈ l, inRange a) {x | ∃ a ∈ l, x ∈ S a} (l.forM run) := by
  induction l with
  | nil => exact adds_pure.congr (by simp) (by simp)
  | cons a l ih =>
    refine ((h a).bind ih).congr (by simp) (Set.ext fun x => ?_)
    simp

end Rules

/-! ### The addresses of the device tree -/

def Region.addresses (r : Region) : Set Nat := Set.Ico r.address (r.address + r.size)

def Region.InRange (r : Region) : Prop := r.size = 0 ∨ r.address + r.size ≤ usizeMax

/-- The addresses of the pages around a range. -/
def Region.pages (pageSize : Nat) (r : Region) : Set Nat :=
  Set.Ico (r.address / pageSize * pageSize) ((r.address + r.size + pageSize - 1) / pageSize * pageSize)

/-- The range of an entry of a `reg` property; it is empty without a size. -/
def Reg.region (reg : Reg) : Region := ⟨reg.address, reg.size.getD 0⟩

/-- The range of the entry that is looked at of a node under `/reserved-memory`. -/
def firstRegion : Option (List Reg) → Region
  | some (reg :: _) => reg.region
  | _ => ⟨0, 0⟩

namespace Fdt

variable (fdt : Fdt)

def memoryAddresses : Set Nat := {x | ∃ memory ∈ fdt.memory, ∃ r ∈ memory, x ∈ r.addresses}

def reservations : Set Nat := {x | ∃ r ∈ fdt.memoryReservations, x ∈ r.addresses}

def reservedPages (pageSize : Nat) : Set Nat :=
  {x | ∃ r ∈ fdt.memoryReservations, x ∈ r.pages pageSize}

/-- The addresses of every entry of every node under `/reserved-memory`. -/
def reservedNodes : Set Nat :=
  {x | ∃ reg ∈ fdt.reservedMemory, ∃ entries, reg = some entries ∧
    ∃ entry ∈ entries, x ∈ entry.region.addresses}

def firstEntries : Set Nat := {x | ∃ reg ∈ fdt.reservedMemory, x ∈ (firstRegion reg).addresses}

/-- The ends that are computed are addresses. -/
structure InRange (pageSize : Nat) : Prop where
  memory : ∀ memory ∈ fdt.memory, ∀ r ∈ memory, r.InRange
  reservations : ∀ r ∈ fdt.memoryReservations, r.address + r.size + pageSize ≤ usizeMax
  entries : ∀ reg ∈ fdt.reservedMemory, (firstRegion reg).InRange

end Fdt

/-! ### The loops -/

section Loops

variable {type : MemoryType}

theorem adds_region (r : Region) :
    Adds type r.InRange r.addresses
      (if r.size = 0 then pure () else addMemoryDescriptor ⟨r.address, r.size, type⟩) := by
  by_cases hsize : r.size = 0
  · rw [if_pos hsize]
    refine adds_pure.congr (by simp [Region.InRange, hsize]) ?_
    rw [Region.addresses, hsize, Nat.add_zero, Set.Ico_self]
  · rw [if_neg hsize]
    exact (adds_descriptor r.address r.size).congr (by simp [Region.InRange, hsize]) rfl

theorem adds_reservation {pageSize : Nat} (hpage : Align.IsAlignment pageSize) (r : Region) :
    Adds .reserved (r.address + r.size + pageSize ≤ usizeMax) (r.pages pageSize)
      (addReservation pageSize r) := by
  unfold addReservation MemoryDescriptor.newAligned
  cases hup : Align.up (r.address + r.size) pageSize with
  | none => exact adds_panic (fun hle => Align.up_eq_none.mp hup (Nat.lt_of_le_pred (by decide) hle)) _
  | some stop =>
    obtain ⟨hlt, hstop⟩ := Align.up_eq_some.mp hup
    have hword : r.address < 2 ^ 64 := by omega
    have hround : r.address + r.size + pageSize - 1 < 2 ^ 64 := by omega
    have hle : Align.down r.address pageSize ≤ stop :=
      (Align.down_le hpage hword).trans ((Nat.le_add_right _ _).trans (Align.le_up hpage hup))
    refine (adds_descriptor _ _).congr ?_ ?_
    · have hmax : stop ≤ usizeMax := by
        have := Align.down_le hpage hround
        show stop ≤ 2 ^ 64 - 1
        omega
      rw [Nat.add_sub_cancel' hle]
      exact iff_of_true hmax (Nat.le_pred_of_lt hlt)
    · rw [Nat.add_sub_cancel' hle, Region.pages, ← Align.down_eq hpage hword, ← Align.down_eq hpage hround,
        hstop]

theorem adds_reserved (reg : Option (List Reg)) :
    Adds .reserved (firstRegion reg).InRange (firstRegion reg).addresses (addReserved reg) := by
  have hempty : Adds .reserved (Region.InRange ⟨0, 0⟩) (Region.addresses ⟨0, 0⟩) (pure ()) :=
    adds_region ⟨0, 0⟩
  match reg with
  | none => exact hempty
  | some [] => exact hempty
  | some (⟨address, none⟩ :: _) => exact adds_region ⟨address, 0⟩
  | some (⟨address, some size⟩ :: _) =>
    refine (congrArg (Adds .reserved _ _) ?_).mpr (adds_region ⟨address, size⟩)
    show (if 0 < size then _ else _) = if size = 0 then _ else _
    by_cases hsize : size = 0
    · rw [if_neg (Nat.not_lt.mpr hsize.le), if_pos hsize]
    · rw [if_pos (Nat.pos_of_ne_zero hsize), if_neg hsize]

end Loops

/-! ### The whole initialisation -/

/-- The initialisation fails for lack of room, or for an end that is not an address, or the free memory is
what is in a memory region and neither on a reserved page nor in a first entry. -/
theorem initMemoryMap_cases {pageSize : Nat} (hpage : Align.IsAlignment pageSize) (fdt : Fdt) :
    (∃ m, initMemoryMap pageSize fdt [] = (.error (.err .capacity), m)) ∨
      (¬ fdt.InRange pageSize ∧ ∃ m, initMemoryMap pageSize fdt [] = (.error .panic, m)) ∨
      fdt.InRange pageSize ∧ ∃ m, initMemoryMap pageSize fdt [] = (.ok (), m) ∧
        ∀ x, Covers m .free x ↔
          x ∈ fdt.memoryAddresses ∧ x ∉ fdt.reservedPages pageSize ∧ x ∉ fdt.firstEntries := by
  have hmemory : Adds .free (∀ memory ∈ fdt.memory, ∀ r ∈ memory, r.InRange) fdt.memoryAddresses
      (fdt.memory.forM fun memory => memory.forM addRegion) :=
    adds_forM fdt.memory fun memory => adds_forM memory fun r => adds_region r
  have hreserved : Adds .reserved
      ((∀ r ∈ fdt.memoryReservations, r.address + r.size + pageSize ≤ usizeMax) ∧
        ∀ reg ∈ fdt.reservedMemory, (firstRegion reg).InRange)
      (fdt.reservedPages pageSize ∪ fdt.firstEntries) (do
        fdt.memoryReservations.forM (addReservation pageSize)
        fdt.reservedMemory.forM addReserved) :=
    (adds_forM fdt.memoryReservations (adds_reservation hpage)).bind
      (adds_forM fdt.reservedMemory adds_reserved)
  rcases hmemory [] (Nat.zero_le _) (fun d hd => absurd hd List.not_mem_nil) with
    ⟨m, hrun⟩ | ⟨hnot, m, hrun⟩ | ⟨hrange, m₁, hrun, hfits, hkinds, hcovers⟩
  · exact .inl ⟨m, Exec.bind_eq_error.mpr (.inl hrun)⟩
  · exact .inr (.inl ⟨fun h => hnot h.memory, m, Exec.bind_eq_error.mpr (.inl hrun)⟩)
  rw [initMemoryMap, Exec.bind_apply_ok hrun]
  rcases hreserved m₁ hfits (fun d hd => .inl ((hkinds d hd).elim id id)) with
    hrun | ⟨hnot, hrun⟩ | ⟨⟨hreservations, hentries⟩, m₂, hrun, -, -, hcovers'⟩
  · exact .inl hrun
  · exact .inr (.inl ⟨fun h => hnot ⟨h.reservations, h.entries⟩, hrun⟩)
  · refine .inr (.inr ⟨⟨hrange, hreservations, hentries⟩, m₂, hrun, fun x => ?_⟩)
    rw [hcovers', hcovers, Set.mem_union, not_or]
    simp only [Tiling.covers_nil, false_and, true_and, false_or, reduceCtorEq, or_false]

/-- What the map is to say about the addresses of the device tree. -/
structure Classifies (pageSize : Nat) (fdt : Fdt) (m : List MemoryDescriptor) : Prop where
  reserved : ∀ x ∈ fdt.reservations ∪ fdt.reservedNodes, ¬ Covers m .free x
  free : ∀ x ∈ fdt.memoryAddresses, x ∉ fdt.reservedPages pageSize → x ∉ fdt.reservedNodes →
    Covers m .free x

theorem reservations_subset {pageSize : Nat} (hpage : Align.IsAlignment pageSize) (fdt : Fdt) :
    fdt.reservations ⊆ fdt.reservedPages pageSize := by
  rintro x ⟨r, hr, hge, hlt⟩
  have hpos := hpage.pos
  refine ⟨r, hr, (Nat.div_mul_le_self _ _).trans hge, hlt.trans_le ?_⟩
  have hnext := Nat.lt_div_mul_add (a := r.address + r.size + pageSize - 1) hpos
  omega

theorem firstEntries_subset (fdt : Fdt) : fdt.firstEntries ⊆ fdt.reservedNodes := by
  rintro x ⟨reg, hreg, hx⟩
  match reg with
  | none => exact absurd (hx.1.trans_lt hx.2) (lt_irrefl _)
  | some [] => exact absurd (hx.1.trans_lt hx.2) (lt_irrefl _)
  | some (entry :: entries) => exact ⟨_, hreg, _, rfl, entry, List.mem_cons_self, hx⟩

/-- For a device tree whose descriptors fit, the initialisation classifies its addresses exactly if the ends
it computes are addresses and the memory in further entries of a `/reserved-memory` node is reserved by
something else too. -/
theorem initMemoryMap_classifies_iff {pageSize : Nat} (hpage : Align.IsAlignment pageSize) (fdt : Fdt)
    (hfits : ∀ m, initMemoryMap pageSize fdt [] ≠ (.error (.err .capacity), m)) :
    (∃ m, initMemoryMap pageSize fdt [] = (.ok (), m) ∧ Classifies pageSize fdt m) ↔
      fdt.InRange pageSize ∧
        ∀ x ∈ fdt.memoryAddresses ∩ fdt.reservedNodes, x ∈ fdt.reservedPages pageSize ∪ fdt.firstEntries := by
  rcases initMemoryMap_cases hpage fdt with ⟨m, hrun⟩ | ⟨hnot, m, hrun⟩ | ⟨hrange, m, hrun, hcovers⟩
  · exact absurd hrun (hfits m)
  · refine iff_of_false (fun ⟨m', hok, _⟩ => ?_) fun h => hnot h.1
    exact absurd (hok.symm.trans hrun) (by simp)
  rw [hrun]
  constructor
  · rintro ⟨m', hok, hclass⟩
    obtain rfl : m = m' := congrArg Prod.snd hok
    refine ⟨hrange, fun x hx => ?_⟩
    by_contra hout
    exact hclass.reserved x (.inr hx.2) ((hcovers x).mpr ⟨hx.1, not_or.mp hout⟩)
  · rintro ⟨-, hentries⟩
    refine ⟨m, rfl, fun x hx hfree => ?_, fun x hmem hpages hnodes => ?_⟩
    · obtain ⟨hmem, hpages, hfirst⟩ := (hcovers x).mp hfree
      rcases hx with hx | hx
      · exact hpages (reservations_subset hpage fdt hx)
      · exact (hentries x ⟨hmem, hx⟩).elim hpages hfirst
    · exact (hcovers x).mpr ⟨hmem, hpages, fun hfirst => hnodes (firstEntries_subset fdt hfirst)⟩

/-- 256 MiB of memory at 1 GiB, a reservation in its first page and a reserved node. -/
def board (entries : List Reg) : Fdt where
  memory := [[⟨0x40000000, 0x10000000⟩]]
  memoryReservations := [⟨0x40000800, 0x100⟩]
  reservedMemory := [some entries]

/-- One entry is reserved. -/
theorem initMemoryMap_classifies_board :
    ∃ m, initMemoryMap 0x1000 (board [⟨0x41000000, some 0x100000⟩]) [] = (.ok (), m) ∧
      Classifies 0x1000 (board [⟨0x41000000, some 0x100000⟩]) m := by
  have hrun : ∃ m, initMemoryMap 0x1000 (board [⟨0x41000000, some 0x100000⟩]) [] = (.ok (), m) :=
    ⟨_, rfl⟩
  obtain ⟨m, hrun⟩ := hrun
  refine (initMemoryMap_classifies_iff ⟨12, by decide, rfl⟩ _ fun m' herr => ?_).mpr ⟨⟨?_, ?_, ?_⟩, ?_⟩
  · exact absurd (hrun.symm.trans herr) (by simp)
  · simp [board, Region.InRange, usizeMax]
  · simp [board, usizeMax]
  · simp [board, Region.InRange, firstRegion, Reg.region, usizeMax]
  · rintro x ⟨-, reg, hreg, entries, rfl, entry, hentry, hx⟩
    obtain rfl : entries = [⟨0x41000000, some 0x100000⟩] := by simpa [board] using hreg
    obtain rfl := List.mem_singleton.mp hentry
    exact .inr ⟨_, hreg, hx⟩

theorem initMemoryMap_second_entry_free :
    let fdt := board [⟨0x41000000, some 0x100000⟩, ⟨0x42000000, some 0x100000⟩]
    ∃ m, initMemoryMap 0x1000 fdt [] = (.ok (), m) ∧
      0x42000000 ∈ fdt.reservedNodes ∧ kindsAt m 0x42000000 = [.free] :=
  ⟨_, rfl, ⟨_, List.mem_singleton_self _, _, rfl, ⟨0x42000000, some 0x100000⟩, by decide, by decide, by decide⟩,
    by decide⟩

end Sparreal.Boot
